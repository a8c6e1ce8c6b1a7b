import QuicGo.Lib.Run
import QuicGo.Lib.Interval
import QuicGo.Protocol
import QuicGo.FrameSorter.Basic
import QuicGo.FrameSorter.Invariant
import QuicGo.FrameSorter.Loops
import QuicGo.FrameSorter.Store
import QuicGo.FrameSorter.Push
import QuicGo.FrameSorter.Machine
import QuicGo.FrameSorter.Callbacks
import QuicGo.FrameSorter.Reassembly
import QuicGo.AckHandler.ReceivedPacketHistory
import QuicGo.AckHandler.DuplicateDetection
import QuicGo.FlowControl.Basic
import QuicGo.FlowControl.Shared
import QuicGo.StreamsMap.Incoming
import QuicGo.StreamsMap.IncomingLimit
import QuicGo.ReceiveStream.Basic
import QuicGo.ReceiveStream.Cursor
import QuicGo.ReceiveStream.Read
import QuicGo.ReceiveStream.Delivery
import QuicGo.AckHandler.AckRanges
import QuicGo.ConnIDManager.Basic
import QuicGo.ConnIDManager.Bookkeeping
import QuicGo.Http3.Frames
import QuicGo.Http3.Stream
import QuicGo.Wire.Header
import QuicGo.Lib.Buffer
import QuicGo.Wire.HeaderRoundTrip
import QuicGo.Handshake.HeaderProtector
import QuicGo.Packet.Packer
import QuicGo.Packet.RoundTrip
import QuicGo.Wire.CryptoFrame
import QuicGo.CryptoStream.Sni
import QuicGo.CryptoStream.Initial
import QuicGo.CryptoStream.Scrambling
import QuicGo.CryptoStream.ClientHello
import QuicGo.Lib.Bits
import QuicGo.Protocol.PacketNumber
import QuicGo.Wire.StreamFrame
import QuicGo.Wire.AckFrameAppend
import QuicGo.FlowControl.WindowUpdate
import QuicGo.AckHandler.ReceivedPacketTracker
import QuicGo.Utils.RingBuffer
import QuicGo.AckHandler.SentPacketHistory
import QuicGo.AckHandler.SentPacketHandler
import QuicGo.Congestion.Pacer
import QuicGo.Lib.SortedList
import QuicGo.MtuDiscoverer.Finder
import QuicGo.MtuDiscoverer.Search
import QuicGo.MtuDiscoverer.Machine
