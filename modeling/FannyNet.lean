import FannyNet.Fragmentation
import FannyNet.NestedArray
import FannyNet.DefaultProtocol
import FannyNet.Pipelining
import FannyNet.Malformed
import FannyNet.Reconnect
import FannyNet.ReceiveRoom
import FannyNet.Callbacks
import FannyNet.Stop
import FannyNet.Ownership
import FannyNet.Completion
import FannyNet.Agreement
import FannyNet.Distinct
import FannyNet.ByteQueue
import FannyNet.Debug
import FannyNet.Lengths
import FannyNet.NetService
import FannyNet.Registry
import FannyNet.Library.Index
import FannyNet.Online
import FannyNet.Clone
import FannyNet.CloneRedis
import FannyNet.Relay
import FannyNet.BufferCalls
import FannyNet.Validity
import FannyNet.Push
import FannyNet.Start
import FannyNet.ResultBuffer
import FannyNet.LineReplies
import FannyNet.ReadTermination
import FannyNet.ReaderBounds
import FannyNet.Library.Loop
import FannyNet.Library.Checks
import FannyNet.Link
import FannyNet.Transfer
import FannyNet.Calls
import FannyNet.Answers
import FannyNet.Peers
import FannyNet.Outstanding
import FannyNet.Batches
import FannyNet.GracefulClose
import FannyNet.Posted
import FannyNet.Program
import FannyNet.Polling
