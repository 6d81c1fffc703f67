import Dot1x.Base.Memory
import Dot1x.Base.Blocks
import Dot1x.Base.Exec
import Dot1x.Base.History
import Dot1x.Base.Transition
import Dot1x.Base.Slots
import Dot1x.Base.Tlv
import Dot1x.Base.Hmac
import Dot1x.Wire.Accessor
import Dot1x.Wire.Packet
import Dot1x.Wire.TlsPacket
import Dot1x.Eap.Buffer
import Dot1x.Eap.Process
import Dot1x.Eap.TypeIdentity
import Dot1x.Eap.TypeMd5
import Dot1x.Eap.Md5Challenge
import Dot1x.Eap.ChapChallenge
import Dot1x.Eap.TypeTls
import Dot1x.Eap.ReceiveBuffer
import Dot1x.Eap.Handlers
import Dot1x.Eap.LengthSafety
import Dot1x.Eap.Retransmission
import Dot1x.Link.Ethernet
import Dot1x.Link.Acceptance
import Dot1x.Client.Listener
import Dot1x.Client.ConnectionState
import Dot1x.Client.Events
import Dot1x.Client.ResponseLength
import Dot1x.Client.ShortFrames
import Dot1x.Daemon.MainLoop
import Dot1x.Daemon.AuthenticatorChange
import Dot1x.Daemon.OutputBound
import Dot1x.Radius.Socket
import Dot1x.Radius.Coherence
import Dot1x.Radius.HandOver
import Dot1x.Radius.Response
import Dot1x.Radius.Dispatcher
import Dot1x.Radius.IdRing
import Dot1x.Radius.Pool
import Dot1x.Nas.SimuNas
import Dot1x.Nas.WireFormat
import Dot1x.Nas.Turns
import Dot1x.Nas.Requests
import Dot1x.Nas.Kept
import Dot1x.Nas.Authorization
import Dot1x.Nas.Sessions
import Dot1x.Nas.Accounting
import Dot1x.Nas.Identifiers
import Dot1x.Nas.Relay
import Dot1x.Nas.Frames
import Dot1x.Radius.Arrivals
import Dot1x.Radius.Pdu
import Dot1x.Radius.AttributeStore
import Dot1x.Radius.Attribute
import Dot1x.Radius.Construct
import Dot1x.Radius.TypedValues
import Dot1x.Radius.CiscoValues
import Dot1x.Radius.Reception
import Dot1x.Radius.Walks
import Dot1x.Radius.VsaSearch
import Dot1x.Radius.Signing
import Dot1x.Radius.HmacMd5
import Dot1x.Radius.Client
import Dot1x.Radius.Copies
import Dot1x.Radius.Passwords
import Dot1x.Radius.MoveOrder
import Dot1x.Radius.Transmissions
import Dot1x.Radius.Authenticity
import Dot1x.Radius.Discard
import Dot1x.Radius.Unanswered
import Dot1x.Radius.MessageAuthenticator
import Dot1x.Radius.Secrets
import Dot1x.Radius.Retransmissions
import Dot1x.Radius.FailOver
import Dot1x.Radius.FirstDatagram
import Dot1x.Radius.AccountingDigest
import Dot1x.Radius.CleanUp
import Dot1x.Radius.PortSearch
import Dot1x.Link.Exchange
import Dot1x.Eap.Reassembly
import Dot1x.Eap.Intake
import Dot1x.Eap.Framing
import Dot1x.Eap.Fragmentation
import Dot1x.Eap.TlsResponse
import Dot1x.Eap.TlsLength
import Dot1x.Eap.Stores
import Dot1x.Eap.StaleResponse
import Dot1x.Eap.OutputRoom
import Dot1x.Eap.EngineOutput
import Dot1x.Eap.CleanHandlers
import Dot1x.Base.Simulation
import Dot1x.Base.Streak
import Dot1x.Eap.FrameLoop
import Dot1x.Eap.TlsMembers
import Dot1x.Eap.Resynchronisation
import Dot1x.Eap.Log
import Dot1x.Client.IdleDisconnect
import Dot1x.Client.Profile
import Dot1x.Client.Settings
import Dot1x.Client.HardwareAddress
import Dot1x.Base.BlockHash
import Dot1x.Base.Sine
import Dot1x.Hash.Md5
import Dot1x.Hash.Standard
import Dot1x.Hash.Constants
import Dot1x.Hash.Streaming
import Dot1x.System.Network
import Dot1x.System.Station
import Dot1x.System.Authorization
import Dot1x.System.Messages
import Dot1x.System.Agreement
import Dot1x.System.Hearing
import Dot1x.System.Responding
import Dot1x.System.Serving
import Dot1x.System.Interoperation
import Dot1x.System.Connection
import Dot1x.System.StandardAnswers
import Dot1x.Daemon.Session
import Dot1x.Daemon.Frames
import Dot1x.Eap.TlsPeer
import Dot1x.Daemon.TlsChannel
