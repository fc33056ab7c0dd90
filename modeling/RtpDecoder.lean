import RtpDecoder.Lib.SpscQueue
import RtpDecoder.Lib.SeqNum
import RtpDecoder.Receiver.Datagram
import RtpDecoder.Receiver.System
import RtpDecoder.Receiver.Ring
import RtpDecoder.Receiver.Delivery
import RtpDecoder.Receiver.Ownership
import RtpDecoder.Lib.BitProgram
import RtpDecoder.Parser.Codestream
import RtpDecoder.Header.Markers
import RtpDecoder.Parser.Packet
import RtpDecoder.Parser.TileHandler
import RtpDecoder.Parser.ChainReader
import RtpDecoder.Parser.Walk
import RtpDecoder.Parser.Incremental
import RtpDecoder.Parser.ParseBound
import RtpDecoder.Parser.Remaining
import RtpDecoder.Parser.Truncation
import RtpDecoder.Frame.Ledger
import RtpDecoder.Frame.Contract
import RtpDecoder.Frame.Slabs
import RtpDecoder.Frame.Terminal
import RtpDecoder.Header.Segment
import RtpDecoder.Receiver.Payload
import RtpDecoder.Header.MainHeader
import RtpDecoder.Parser.Structure
import RtpDecoder.Parser.Leftover
import RtpDecoder.Frame.Tiles
import RtpDecoder.Parser.Relatch
import RtpDecoder.Receiver.Accounting
import RtpDecoder.Receiver.Reordering
import RtpDecoder.Lib.Machine
import RtpDecoder.Parser.FlatReader
import RtpDecoder.Header.Layout
import RtpDecoder.Header.Agreement
import RtpDecoder.Header.Usable
import RtpDecoder.Parser.Progression
import RtpDecoder.Lib.Stride
import RtpDecoder.Parser.Coverage
import RtpDecoder.Parser.Precincts
import RtpDecoder.Frame.Calls
import RtpDecoder.Lib.Throughout
import RtpDecoder.Frame.Rebuilds
import RtpDecoder.Frame.Intact
import RtpDecoder.Header.Geometry
import RtpDecoder.Frame.Current
import RtpDecoder.Parser.CodeBlocks
import RtpDecoder.Lib.BitStuffing
import RtpDecoder.Parser.Stuffing
import RtpDecoder.Parser.HtCoding
import RtpDecoder.Parser.LocalOrder
import RtpDecoder.Parser.Restart
import RtpDecoder.Parser.CleanSlate
import RtpDecoder.Parser.Isolation
import RtpDecoder.Parser.Frames
import RtpDecoder.Frame.Hatch
import RtpDecoder.Frame.Offers
import RtpDecoder.Frame.Split
import RtpDecoder.Parser.InChunk
import RtpDecoder.Parser.Recovery
import RtpDecoder.Parser.TagTree
import RtpDecoder.Parser.Lengths
import RtpDecoder.Parser.Retry
import RtpDecoder.Lib.Looping
import RtpDecoder.Header.Loops
import RtpDecoder.Lib.Arena
import RtpDecoder.Parser.Arena
import RtpDecoder.Lib.Raster
import RtpDecoder.Parser.PrecinctBorders
import RtpDecoder.Parser.TagTreeLayout
import RtpDecoder.Parser.Tiles
import RtpDecoder.Parser.Subbands
import RtpDecoder.Parser.Passes
import RtpDecoder.Receiver.Stall
import RtpDecoder.Frame.Counters
import RtpDecoder.Header.Framed
import RtpDecoder.Header.Walk
import RtpDecoder.Lib.Views
import RtpDecoder.Receiver.Report
import RtpDecoder.Header.Order
import RtpDecoder.Header.Exchange
import RtpDecoder.Parser.Body
import RtpDecoder.Frame.Reporting
import RtpDecoder.Frame.Settled
import RtpDecoder.Frame.CleanFrame
import RtpDecoder.Header.Bytewise
import RtpDecoder.Frame.InUse
import RtpDecoder.Frame.Takeup
import RtpDecoder.Frame.Stream
import RtpDecoder.Receiver.Pipeline
import RtpDecoder.Receiver.ZeroCopy
import RtpDecoder.Receiver.Progress
import RtpDecoder.Receiver.EndToEnd
import RtpDecoder.Receiver.Session
import RtpDecoder.Parser.Overshoot
import RtpDecoder.Frame.Measuring
