import NetBlocks.Correctness.AcceptCounters
import NetBlocks.Correctness.AckNumbers
import NetBlocks.Correctness.AckedPackets
import NetBlocks.Correctness.ByteStream
import NetBlocks.Correctness.ChecksumDetection
import NetBlocks.Correctness.ChecksumFrame
import NetBlocks.Correctness.DeferredAccept
import NetBlocks.Correctness.Dissector
import NetBlocks.Correctness.DrainLoop
import NetBlocks.Correctness.EndToEnd
import NetBlocks.Correctness.EventDispatch
import NetBlocks.Correctness.HeaderDecoding
import NetBlocks.Correctness.HostIds
import NetBlocks.Correctness.HubRounds
import NetBlocks.Correctness.IngressBounds
import NetBlocks.Correctness.IpHeader
import NetBlocks.Correctness.Isolation
import NetBlocks.Correctness.NetworkDelivery
import NetBlocks.Correctness.NewestSublist
import NetBlocks.Correctness.PacketCounts
import NetBlocks.Correctness.PathScheduling
import NetBlocks.Correctness.PayloadLength
import NetBlocks.Correctness.ReceiveBlocks
import NetBlocks.Correctness.ReceiveRing
import NetBlocks.Correctness.ReceivedPayload
import NetBlocks.Correctness.Reordering
import NetBlocks.Correctness.SendBounds
import NetBlocks.Correctness.SendBuffers
import NetBlocks.Correctness.Signaling
import NetBlocks.Correctness.SourcePorts
import NetBlocks.Correctness.TimerFiring
import NetBlocks.Runtime.IpChecksum
