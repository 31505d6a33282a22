import Cjdns.Admin.AuthClient
import Cjdns.Admin.AuthExactness
import Cjdns.Admin.AuthValid
import Cjdns.Admin.Authentication
import Cjdns.Admin.Hermes
import Cjdns.Admin.LogDelivery
import Cjdns.Benc.BencodeRoundTrip
import Cjdns.Benc.DictLaws
import Cjdns.Benc.JsonComments
import Cjdns.Benc.JsonIndentation
import Cjdns.Benc.StringLength
import Cjdns.Benc.StringMemory
import Cjdns.Benc.StringPositions
import Cjdns.Crypto.Delivery
import Cjdns.Crypto.Negotiation
import Cjdns.Crypto.Nonces
import Cjdns.Crypto.Passwords
import Cjdns.Crypto.Refusal
import Cjdns.Crypto.ReplayWindow
import Cjdns.Crypto.RequiredPadding
import Cjdns.Dht.BrokenPath
import Cjdns.Dht.CloserSearch
import Cjdns.Dht.ClosestNodes
import Cjdns.Dht.DistanceCollector
import Cjdns.Dht.FartherNodes
import Cjdns.Dht.Forwarding
import Cjdns.Dht.LinkStateOrder
import Cjdns.Dht.Reach
import Cjdns.Dht.ReplySafety
import Cjdns.Dht.Routes
import Cjdns.Dht.Search
import Cjdns.Dht.SearchLife
import Cjdns.Dht.SearchOnce
import Cjdns.Dht.XorOrder
import Cjdns.Interface.ETHInterface
import Cjdns.Interface.ICMP6Generator
import Cjdns.Interface.PipeFraming
import Cjdns.Interface.PipeSafety
import Cjdns.Interface.ShortFrames
import Cjdns.Library.Buffer
import Cjdns.Library.Comparison
import Cjdns.Library.OnesComplement
import Cjdns.Library.Regrouping
import Cjdns.Library.TextSearch
import Cjdns.Memory.BufferSafety
import Cjdns.Memory.MallocFree
import Cjdns.Net.ErrorPacket
import Cjdns.Net.FailedRegistration
import Cjdns.Net.LabelReversal
import Cjdns.Net.PeerGate
import Cjdns.Net.PeerMaintenance
import Cjdns.Net.PeerMerging
import Cjdns.Net.PingTable
import Cjdns.Net.SessionExpiry
import Cjdns.Net.SessionHandles
import Cjdns.Net.SourceAddress
import Cjdns.Net.StrayPackets
import Cjdns.Net.SwitchPinger
import Cjdns.Net.TransitRouting
import Cjdns.Switch.InterfaceTable
import Cjdns.Switch.ReturnPath
import Cjdns.Switch.Splicing
import Cjdns.Tunnel.ControlLength
import Cjdns.Tunnel.ControlMessage
import Cjdns.Tunnel.IpTunnel
import Cjdns.Tunnel.IssuedAddresses
import Cjdns.Tunnel.Polling
import Cjdns.Util.AverageRoller
import Cjdns.Util.Base32Codec
import Cjdns.Util.ChecksumLaw
import Cjdns.Util.HexBuffers
import Cjdns.Util.MapArrays
import Cjdns.Dht.TableDump
import Cjdns.Library.PrefixCode
import Cjdns.Interface.PipeAgreement
import Cjdns.Crypto.RandomStream
import Cjdns.Net.SwitchPing
import Cjdns.Tunnel.Lease
import Cjdns.Memory.CanaryRuns
import Cjdns.Switch.Directions
import Cjdns.Switch.Walks
import Cjdns.Library.Records
import Cjdns.Dht.NodeList
import Cjdns.Dht.WireMessages
import Cjdns.Dht.QueryExchange
import Cjdns.Dht.KeptAddresses
import Cjdns.Dht.Mesh
import Cjdns.Dht.TrueRoutes
import Cjdns.Dht.MeshRuns
