import Ghajar.Lib.History
import Ghajar.Lib.Reactive
import Ghajar.Lib.Run
import Ghajar.Lib.Threads
import Ghajar.Lib.Utf8
import Ghajar.Lib.Bytes
import Ghajar.Lib.Words
import Ghajar.Lib.Limbs
import Ghajar.Lib.X25519
import Ghajar.Lib.Checked
import Ghajar.Crypto.Curve25519
import Ghajar.Crypto.Carry
import Ghajar.Crypto.Field
import Ghajar.Crypto.Pack
import Ghajar.Crypto.Ladder
import Ghajar.Lib.Montgomery
import Ghajar.Lib.Prime25519
import Ghajar.Lib.ScalarMult
import Ghajar.Crypto.Exchange
import Ghajar.Crypto.KeyPair
import Ghajar.Checkout.Rules
import Ghajar.Checkout.ViewModel
import Ghajar.Checkout.Stage
import Ghajar.Checkout.Steps
import Ghajar.Checkout.Belongs
import Ghajar.Checkout.Restart
import Ghajar.Lib.ChaChaPoly
import Ghajar.Crypto.ChaCha20Poly1305
import Ghajar.Crypto.Sealed
import Ghajar.Lib.ByteReader
import Ghajar.Account.Http
import Ghajar.Account.Once
import Ghajar.Account.Token
import Ghajar.Softether.Framing
import Ghajar.Softether.Pack
import Ghajar.Softether.RoundTrip
import Ghajar.Ppp.Wire
import Ghajar.Ppp.MsChap
import Ghajar.Ppp.Negotiate
import Ghajar.Ppp.Scan
import Ghajar.Ppp.Step
import Ghajar.Ppp.InOrder
import Ghajar.Ppp.Earned
import Ghajar.Ppp.Policy
import Ghajar.Vpn.Coordinator
import Ghajar.Vpn.Broadcast
import Ghajar.Vpn.Main
import Ghajar.Vpn.Watchdog
import Ghajar.Vpn.Disconnect
import Ghajar.Tunnel.Service
import Ghajar.Tunnel.Places
import Ghajar.Tunnel.Ready
import Ghajar.Lib.File
import Ghajar.Download.Planner
import Ghajar.Download.Engine
import Ghajar.Download.Segment
import Ghajar.Download.Whole
import Ghajar.Lib.Keyed
import Ghajar.Lib.Counts
import Ghajar.Lib.Text
import Ghajar.Lib.Json
import Ghajar.Config.ProxyConfig
import Ghajar.Config.Builder
import Ghajar.Config.Paths
import Ghajar.Config.SameTunnel
import Ghajar.Share.Gsb2
import Ghajar.Share.Starts
import Ghajar.Share.Limits
import Ghajar.Download.Queue
import Ghajar.Download.Invariant
import Ghajar.Download.Consistent
import Ghajar.Net.Watcher
import Ghajar.Usage.Load
import Ghajar.Store.ConfigStore
import Ghajar.Store.Refresh
import Ghajar.Vpn.State
import Ghajar.Ovpn.Bridge
import Ghajar.Ovpn.Status
import Ghajar.Ike.Controller
import Ghajar.Update.Flow
import Ghajar.Update.UpdateChecker
import Ghajar.Update.Verified
import Ghajar.Net.AutoConnect
import Ghajar.Tunnel.KillSwitch
import Ghajar.Tunnel.Blocking
import Ghajar.Tunnel.Blocked
import Ghajar.Share.Clock
import Ghajar.Config.Tags
import Ghajar.Config.Subscription
import Ghajar.Lib.GroupBy
import Ghajar.Store.Groups
import Ghajar.Store.Integrity
import Ghajar.Share.Share
import Ghajar.Share.Reimport
import Ghajar.Lib.JsonText
import Ghajar.Config.Codec
import Ghajar.Config.TextPlatform
import Ghajar.Lib.Base64
import Ghajar.Lib.Sealing
import Ghajar.Config.ConfigFile
import Ghajar.Share.Seal
import Ghajar.Config.AmneziaWg
import Ghajar.Lib.Infix
import Ghajar.Config.SubscriptionFetcher
import Ghajar.Config.Shared
import Ghajar.Ppp.Options
import Ghajar.Ppp.Pap
import Ghajar.Ppp.Acked
import Ghajar.Ssh.WsConn
import Ghajar.Lib.Search
import Ghajar.Ssh.SplitPayload
import Ghajar.Socks.Udp
import Ghajar.Socks.Connect
import Ghajar.Socks.Relay
import Ghajar.Softether.Ethernet
import Ghajar.Softether.Dhcp
import Ghajar.Softether.Link
import Ghajar.Lib.Exits
import Ghajar.Lib.JavaArray
import Ghajar.Npv.Link
import Ghajar.Npv.Container
import Ghajar.Npv.Returns
import Ghajar.Lib.Long
import Ghajar.Share.Expiry
import Ghajar.Share.Opens
import Ghajar.Config.ProfileFile
import Ghajar.Config.YamlEnds
import Ghajar.Config.YamlScalars
import Ghajar.Store.MergeOnce
import Ghajar.Store.Carried
import Ghajar.Account.Delivery
import Ghajar.Config.FreeFeedRules
import Ghajar.Engine.Unchanged
import Ghajar.Account.Renewal
import Ghajar.Store.PerApp
import Ghajar.Usage.Conserved
import Ghajar.Tor.Controller
import Ghajar.Checkout.Fallback
import Ghajar.Config.JsonOutbound
import Ghajar.Npv.Sentinels
import Ghajar.Npv.OpenExport
import Ghajar.Sstp.Framing
import Ghajar.Lib.Binary
import Ghajar.Look.GhajarLook
import Ghajar.Look.RoundTrip
import Ghajar.Download.Tiles
import Ghajar.Config.ShareLink
import Ghajar.Lib.Digest
import Ghajar.Engine.Tailscale
import Ghajar.Account.NoticeBus
import Ghajar.Net.ConfigRotator
import Ghajar.Lib.Writers
import Ghajar.Store.Restore
import Ghajar.Engine.Secrets
import Ghajar.Config.LinkText
import Ghajar.Config.LinkParsers
import Ghajar.Config.ProtocolForms
import Ghajar.Config.FormLinks
import Ghajar.Config.FormsKept
import Ghajar.Ssh.WsWrite
import Ghajar.Ssh.Handshake
import Ghajar.Sstp.Call
import Ghajar.Config.FormsServed
import Ghajar.Lib.Numerals
import Ghajar.Config.ConfigShare
import Ghajar.Config.ShareRead
import Ghajar.Config.ShareBack
