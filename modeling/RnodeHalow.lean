import RnodeHalow.Ack.Acknowledged
import RnodeHalow.Ack.Deadline
import RnodeHalow.Ack.Entering
import RnodeHalow.Ack.AckRate
import RnodeHalow.Radio.ReassemblyBounds
import RnodeHalow.Dhcp.Offers
import RnodeHalow.Dhcp.Decline
import RnodeHalow.Dhcp.Grammar
import RnodeHalow.Ota.RebootGuard
import RnodeHalow.Ack.ReadyGate
import RnodeHalow.Ack.RetryBudget
import RnodeHalow.Ack.Envelopes
import RnodeHalow.Ack.FidAck
import RnodeHalow.Ack.RateRange
import RnodeHalow.Ack.BundleSize
import RnodeHalow.Ack.Collapse
import RnodeHalow.Ack.Retransmission
import RnodeHalow.Tcp.NetbufCursor
import RnodeHalow.Radio.ActiveFlag
import RnodeHalow.Config.Refusal
import RnodeHalow.Radio.AcQueues
import RnodeHalow.Radio.MacRotation
import RnodeHalow.Stream.FastPath
import RnodeHalow.Rns.NewestLinks
import RnodeHalow.Ota.Base64
import RnodeHalow.Ota.Uploads
import RnodeHalow.Config.HttpBody
import RnodeHalow.Handler.EndToEnd
import RnodeHalow.Stream.UartRing
import RnodeHalow.Ack.Timers
