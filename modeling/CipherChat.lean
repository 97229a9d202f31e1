import CipherChat.Server
import CipherChat.RouteTable
import CipherChat.Output
import CipherChat.WakeUp
import CipherChat.WorkerReader
import CipherChat.Relay
import CipherChat.Departure
import CipherChat.Orphans
import CipherChat.Overflow
import CipherChat.SingleReport
import CipherChat.Authenticity
import CipherChat.Downloads
import CipherChat.RoundTrip
import CipherChat.Decryption
import CipherChat.FileCodec
import CipherChat.Separation
import CipherChat.ClientStream
import CipherChat.ClientPrivacy
import CipherChat.ClientPending
import CipherChat.Draining
import CipherChat.InputDispatch
import CipherChat.PeerNames
import CipherChat.ClientList
import CipherChat.TextReplies
import CipherChat.TlsRetry
import CipherChat.AbortSweep
import CipherChat.Broadcast
import CipherChat.ForwardFailures
import CipherChat.Isolation
import CipherChat.Blocking
import CipherChat.PendingAnswers
import CipherChat.Reception
import CipherChat.TlsRules
import CipherChat.Deadlines
import CipherChat.Login
import CipherChat.ChatTransfers
