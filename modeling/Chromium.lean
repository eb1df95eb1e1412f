import Chromium.Base.Metrics.HistogramInfo
import Chromium.Base.PickleMemory
import Chromium.Crypto.OpenPgpRoundTrip
import Chromium.Crypto.RsaPrivateKeyReads
import Chromium.Gpu.Client.CmdBufferHelperTokens
import Chromium.Gpu.Client.CommandRing
import Chromium.Gpu.Client.RingBuffer
import Chromium.Gpu.Common.IdAllocator
import Chromium.Gpu.Service.FixedAttribs
import Chromium.Gpu.Service.TextureMipmaps
import Chromium.Ipc.ChannelDelivery
import Chromium.Media.H264ByteStream
import Chromium.Media.WebMParser
import Chromium.Net.Base.Asn1Bounds
import Chromium.Net.Base.BackoffEntry
import Chromium.Net.Base.CrlSetApplyDelta
import Chromium.Net.Base.DnsDomain
import Chromium.Net.Base.GZipHeader
import Chromium.Net.Base.UploadFilesRuns
import Chromium.Net.Cookies.CookieServing
import Chromium.Net.CurveCP.MessengerTransfer
import Chromium.Net.DiskCache.BlockFiles
import Chromium.Net.DiskCache.RankingsRecovery
import Chromium.Net.DiskCache.SparseWrites
import Chromium.Net.Http.CacheFreshness
import Chromium.Net.Http.HeaderUpdate
import Chromium.Net.Http.HttpCacheOperations
import Chromium.Net.Http.HttpStreamParserSend
import Chromium.Net.Http.ParseRangeHeader
import Chromium.Net.Spdy.SpdyFramerDelivery
import Chromium.Net.Spdy.SpdyFramerErrors
import Chromium.Net.Spdy.SpdySessionAdmission
import Chromium.Net.Spdy.SpdySessionCompletion
import Chromium.Net.Spdy.SpdySessionIds
import Chromium.Net.Spdy.SpdyStreamWindow
import Chromium.Net.WebSockets.WebSocketFrameHandler
import Chromium.Net.WebSockets.WebSocketThrottle
import Chromium.Quota.UsageInvariant
import Chromium.Remoting.DifferRegion
import Chromium.SafeBrowsing.ChunkFormat
import Chromium.SafeBrowsing.ChunkRange
import Chromium.SafeBrowsing.PrefixSetFile
import Chromium.Sync.Syncable.ChildMoves
import Chromium.Sync.Syncable.SaveRuns
import Chromium.Tabs.TabStripRuns
import Chromium.VisitedLink.VisitedLinkLoad
