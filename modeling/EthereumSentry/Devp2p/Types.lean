import Mathlib.Order.Basic
import Mathlib.Data.String.Basic
import EthereumSentry.Devp2p.Crates

/-!
# `types.rs`

The names, versions and lengths of capabilities, and the messages that are exchanged under them.
-/

set_option autoImplicit false

namespace EthereumSentry

/-- `CapabilityName`: a string of at most four bytes. -/
structure CapabilityName where
  text : String
  fits : text.utf8ByteSize ≤ 4
  deriving DecidableEq

namespace CapabilityName

/-- The order of the names. -/
instance : LT CapabilityName := ⟨fun a b => a.text < b.text⟩

instance : DecidableLT CapabilityName := fun a b => inferInstanceAs (Decidable (a.text < b.text))

/-- The bytes of the name. -/
def bytes (n : CapabilityName) : Bytes := n.text.toUTF8.data.toList

/-- `ArrayString::from`. -/
def ofString? (s : String) : Option CapabilityName := if h : s.utf8ByteSize ≤ 4 then some ⟨s, h⟩ else none

end CapabilityName

/-- `CapabilityInfo`. -/
structure CapabilityInfo where
  name : CapabilityName
  version : Nat
  length : Nat
  deriving DecidableEq

/-- `Message`. -/
structure Message where
  id : Nat
  data : Bytes
  deriving DecidableEq, Repr

/-- `DisconnectReason`. -/
inductive DisconnectReason where
  | disconnectRequested
  | tcpSubsystemError
  | protocolBreach
  | uselessPeer
  | tooManyPeers
  | alreadyConnected
  | incompatibleP2PProtocolVersion
  | nullNodeIdentity
  | clientQuitting
  | unexpectedHandshakeIdentity
  | connectedToSelf
  | pingTimeout
  | subprotocolSpecific
  deriving DecidableEq, Repr

namespace DisconnectReason

def toU8 : DisconnectReason → Nat
  | disconnectRequested => 0x00
  | tcpSubsystemError => 0x01
  | protocolBreach => 0x02
  | uselessPeer => 0x03
  | tooManyPeers => 0x04
  | alreadyConnected => 0x05
  | incompatibleP2PProtocolVersion => 0x06
  | nullNodeIdentity => 0x07
  | clientQuitting => 0x08
  | unexpectedHandshakeIdentity => 0x09
  | connectedToSelf => 0x0a
  | pingTimeout => 0x0b
  | subprotocolSpecific => 0x10

def fromU8 : Nat → Option DisconnectReason
  | 0x00 => some disconnectRequested
  | 0x01 => some tcpSubsystemError
  | 0x02 => some protocolBreach
  | 0x03 => some uselessPeer
  | 0x04 => some tooManyPeers
  | 0x05 => some alreadyConnected
  | 0x06 => some incompatibleP2PProtocolVersion
  | 0x07 => some nullNodeIdentity
  | 0x08 => some clientQuitting
  | 0x09 => some unexpectedHandshakeIdentity
  | 0x0a => some connectedToSelf
  | 0x0b => some pingTimeout
  | 0x10 => some subprotocolSpecific
  | _ => none

/-- `Display`. -/
def display : DisconnectReason → String
  | disconnectRequested => "disconnect requested"
  | tcpSubsystemError => "TCP sub-system error"
  | protocolBreach => "breach of protocol, e.g. a malformed message, bad RLP, ..."
  | uselessPeer => "useless peer"
  | tooManyPeers => "too many peers"
  | alreadyConnected => "already connected"
  | incompatibleP2PProtocolVersion => "incompatible P2P protocol version"
  | nullNodeIdentity => "null node identity received - this is automatically invalid"
  | clientQuitting => "client quitting"
  | unexpectedHandshakeIdentity => "unexpected identity in handshake"
  | connectedToSelf => "identity is the same as this node (i.e. connected to itself)"
  | pingTimeout => "ping timeout"
  | subprotocolSpecific => "some other reason specific to a subprotocol"

theorem toU8_le (r : DisconnectReason) : r.toU8 ≤ 0x10 := by cases r <;> decide

end DisconnectReason

/-- `OutboundEvent`: what a capability server has for a peer. -/
inductive OutboundEvent where
  | disconnect (reason : DisconnectReason)
  | message (capabilityName : CapabilityName) (message : Message)
  deriving DecidableEq

/-- `ProtocolVersion`. -/
inductive ProtocolVersion where
  | v4
  | v5
  deriving DecidableEq, Repr

def ProtocolVersion.toUsize : ProtocolVersion → Nat
  | v4 => 4
  | v5 => 5

end EthereumSentry
