import EthereumSentry.Devp2p.Ecies.Chunking
import EthereumSentry.Devp2p.Ecies.Duplex
import EthereumSentry.Devp2p.Ecies.HandshakeSafe
import EthereumSentry.Devp2p.Ecies.Typestate
import EthereumSentry.Devp2p.ReservedPeers
import EthereumSentry.Devp2p.Peer.Safe
import EthereumSentry.Devp2p.Peer.Control
import EthereumSentry.Devp2p.Peer.Demux
import EthereumSentry.Devp2p.Peer.FrameLength
import EthereumSentry.Devp2p.Ecies.Tampering
import EthereumSentry.Devp2p.Peer.Conversation
import EthereumSentry.Devp2p.Peer.Meeting
import EthereumSentry.Devp2p.Peer.Foreign
import EthereumSentry.Devp2p.Peer.Compression
import EthereumSentry.Discv4.Recency
import EthereumSentry.Discv4.Closest
import EthereumSentry.Discv4.Pinger
import EthereumSentry.Discv4.Endpoints
import EthereumSentry.Discv4.Lookup
import EthereumSentry.Discv4.FindNodeGuards
import EthereumSentry.Discv4.ExpectedPings
import EthereumSentry.Discv4.EndpointProof
import EthereumSentry.Discv4.Ingress
import EthereumSentry.Discv4.PacketSize
import EthereumSentry.Discv4.RoundTrip
import EthereumSentry.Discv4.Network
import EthereumSentry.Sentry.BlockHeaders
import EthereumSentry.Sentry.BlockTracker
import EthereumSentry.Sentry.DataProvider
import EthereumSentry.Sentry.RequestCodec
import EthereumSentry.Swarm.ValidPeers
import EthereumSentry.Swarm.Limit
import EthereumSentry.Swarm.Outbound
import EthereumSentry.Swarm.Keepalive
import EthereumSentry.Swarm.SentryService
import EthereumSentry.Swarm.Serving
import EthereumSentry.Swarm.StatusUpdater
import EthereumSentry.Swarm.Dialer
import EthereumSentry.Swarm.SimultaneousDial
import EthereumSentry.Dnsdisc.Backends
import EthereumSentry.Devp2p.DnsDiscovery
import EthereumSentry.Dnsdisc.Confined
import EthereumSentry.Dnsdisc.RoundTrip
import EthereumSentry.Dnsdisc.Terminates
