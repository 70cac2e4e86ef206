import FlexBraid.Lib.GoMap
import FlexBraid.Lib.BigEndian
import FlexBraid.Lib.Bitmap
import FlexBraid.Lib.Run
import FlexBraid.Lib.GoNum
import FlexBraid.Lib.ReedSolomon
import FlexBraid.Lib.SmallCodes
import FlexBraid.Frame
import FlexBraid.Crypto.Replay
import FlexBraid.Crypto.ReplayRefinement
import FlexBraid.Fec.Params
import FlexBraid.Fec.Encoder
import FlexBraid.Fec.Decoder
import FlexBraid.Fec.DecoderCalls
import FlexBraid.Fec.RawPath
import FlexBraid.Fec.Parity
import FlexBraid.Fec.Assembly
import FlexBraid.Fec.Segments
import FlexBraid.Fec.Batches
import FlexBraid.Fec.Recovery
import FlexBraid.Fec.RecoveryRun
import FlexBraid.Fec.Traffic
import FlexBraid.Fec.Emissions
import FlexBraid.Fec.Late
import FlexBraid.Fec.StreamStats
import FlexBraid.Fec.CallOrder
import FlexBraid.Fec.Latency
import FlexBraid.Fec.Stage
import FlexBraid.Fec.Lossless
import FlexBraid.Fec.Isolation
import FlexBraid.Lib.GoSlice
import FlexBraid.Fec.Checked
import FlexBraid.Fec.Rejected
import FlexBraid.Fec.SubHeader
import FlexBraid.Lib.OnesComplement
import FlexBraid.Transport.Icmp
import FlexBraid.Transport.Pull
import FlexBraid.Transport.ReplyQueue
import FlexBraid.Transport.RawSocket
import FlexBraid.Transport.FakeTcp
import FlexBraid.Transport.RawParsers
import FlexBraid.Transport.Conversation
import FlexBraid.Lib.Prog
import FlexBraid.Lib.Passive
import FlexBraid.Lib.Ledger
import FlexBraid.Lib.Numbering
import FlexBraid.Crypto.Aead
import FlexBraid.Crypto.Keys
import FlexBraid.Crypto.Wire
import FlexBraid.Health
import FlexBraid.Breaker
import FlexBraid.Scheduler
import FlexBraid.Lib.Binary64
import FlexBraid.RoundRobin
import FlexBraid.Tunnel.Config
import FlexBraid.Tunnel.Validate
import FlexBraid.Tunnel.SendQueue
import FlexBraid.Tunnel.RawLoss
import FlexBraid.Session
import FlexBraid.Tunnel.ServerSession
import FlexBraid.Tunnel.SessRules
import FlexBraid.Tunnel.Server
import FlexBraid.Tunnel.Turns
import FlexBraid.Tunnel.ServerSteps
import FlexBraid.Tunnel.FirstReplay
import FlexBraid.Tunnel.Inert
import FlexBraid.Tunnel.Delivery
import FlexBraid.Tunnel.Client
import FlexBraid.Tunnel.ClientRules
import FlexBraid.Tunnel.Announce
import FlexBraid.Tunnel.Geometry
import FlexBraid.Tunnel.Nonce
import FlexBraid.Tunnel.ClientNonce
import FlexBraid.Tunnel.Cadence
import FlexBraid.Tunnel.WireSize
import FlexBraid.Tunnel.Agreement
import FlexBraid.Tunnel.Adoption
import FlexBraid.Tunnel.System
import FlexBraid.Tunnel.BaseKey
import FlexBraid.Tunnel.Bounds
import FlexBraid.Tunnel.Wraparound
import FlexBraid.Tunnel.DeliveryOrder
import FlexBraid.Tunnel.DeliveryRuns
import FlexBraid.Tunnel.DeliveryAccounts
import FlexBraid.Tunnel.DeliveryWindow
import FlexBraid.Tunnel.DeliveryTimers
import FlexBraid.Tunnel.DeliveryShift
import FlexBraid.Tunnel.Windows
import FlexBraid.Tunnel.InnerOrder
import FlexBraid.Tunnel.FrozenCodecs
import FlexBraid.Tunnel.CleanDownlink
import FlexBraid.Tunnel.CrossPath
import FlexBraid.Tunnel.Protection
import FlexBraid.Tunnel.Provenance
import FlexBraid.Tunnel.KeyAgreement
import FlexBraid.Fec.Mentions
import FlexBraid.Tunnel.InnerNumbers
import FlexBraid.Tunnel.AtMostOnce
import FlexBraid.Tunnel.FastTrip
import FlexBraid.Lib.HashRing
import FlexBraid.PathChoice
import FlexBraid.Lib.SmoothRoundRobin
import FlexBraid.Proportional
import FlexBraid.Tunnel.Codable
import FlexBraid.Tunnel.QueueAccounts
import FlexBraid.Lib.TokenBucket
import FlexBraid.Tunnel.Pacing
import FlexBraid.Tunnel.Reload
import FlexBraid.Tunnel.Silence
import FlexBraid.Tunnel.ClientInert
