import EthereumSentry.Devp2p.Crates
import EthereumSentry.Discv4.Kad

/-!
# Messages and datagrams of node discovery

`src/discv4/src/message.rs`, `src/discv4/src/proto.rs`, and how `src/discv4/src/node.rs` puts a message into a datagram
(`EgressMessage.datagram`) and opens one (`openDatagram`). What a node has signed is opened by every other one under the
id of the node (`openDatagram_datagram`).
-/

set_option autoImplicit false

namespace EthereumSentry

namespace Discv4

open Rlp (Codec DecoderError)

/-! ## Records and endpoints -/

def IpAddr.octets : IpAddr → Bytes
  | v4 octets => octets.bytes
  | v6 octets => octets.bytes

/-- An address of four or of sixteen octets. -/
def IpAddr.ofOctets (b : Bytes) : Except DecoderError IpAddr :=
  if h : b.length = 4 then .ok (.v4 ⟨b, h⟩)
  else if h : b.length = 16 then .ok (.v6 ⟨b, h⟩)
  else .error (.custom "wrong address length")

section Encoding

variable (R : Codec)

/-- A `u16` at an index of a list. -/
def u16At (rlp : Bytes) (i : Nat) : Except DecoderError UInt16 := do
  let item ← R.itemAt rlp i
  return UInt16.ofNat (← R.uint 2 item)

/-- A `u64` at an index of a list. -/
def u64At (rlp : Bytes) (i : Nat) : Except DecoderError UInt64 := do
  let item ← R.itemAt rlp i
  return UInt64.ofNat (← R.uint 8 item)

/-- An address at the front of a list. -/
def addressAt0 (rlp : Bytes) : Except DecoderError IpAddr := do
  let item ← R.itemAt rlp 0
  IpAddr.ofOctets (← R.data item)

def NodeRecord.encode (n : NodeRecord) : Bytes := R.encodeList [
  R.encodeBytes n.address.octets, R.encodeUint n.udpPort.toNat, R.encodeUint n.tcpPort.toNat, R.encodeBytes n.id.bytes]

def NodeRecord.decode (rlp : Bytes) : Except DecoderError NodeRecord := do
  let address ← addressAt0 R rlp
  let udpPort ← u16At R rlp 1
  let tcpPort ← u16At R rlp 2
  let id ← R.hash 64 (← R.itemAt rlp 3)
  return ⟨address, tcpPort, udpPort, id⟩

def Endpoint.encode (e : Endpoint) : Bytes := R.encodeList [
  R.encodeBytes e.address.octets, R.encodeUint e.udpPort.toNat, R.encodeUint e.tcpPort.toNat]

def Endpoint.decode (rlp : Bytes) : Except DecoderError Endpoint := do
  let address ← addressAt0 R rlp
  let udpPort ← u16At R rlp 1
  let tcpPort ← u16At R rlp 2
  return ⟨address, udpPort, tcpPort⟩

/-! ## Messages -/

structure FindNodeMessage where
  id : NodeId
  expire : UInt64
  deriving DecidableEq

structure NeighboursMessage where
  nodes : List NodeRecord
  expire : UInt64
  deriving DecidableEq

structure PingMessage where
  fromEndpoint : Endpoint
  toEndpoint : Endpoint
  expire : UInt64
  deriving DecidableEq

structure PongMessage where
  toEndpoint : Endpoint
  echo : H256
  expire : UInt64
  deriving DecidableEq

def FindNodeMessage.encode (m : FindNodeMessage) : Bytes :=
  R.encodeList [R.encodeBytes m.id.bytes, R.encodeUint m.expire.toNat]

def FindNodeMessage.decode (rlp : Bytes) : Except DecoderError FindNodeMessage := do
  let id ← R.hash 64 (← R.itemAt rlp 0)
  return ⟨id, ← u64At R rlp 1⟩

def NeighboursMessage.encode (m : NeighboursMessage) : Bytes :=
  R.encodeList [R.encodeList (m.nodes.map (·.encode R)), R.encodeUint m.expire.toNat]

def NeighboursMessage.decode (rlp : Bytes) : Except DecoderError NeighboursMessage := do
  let nodes ← (R.items (← R.itemAt rlp 0)).mapM (NodeRecord.decode R)
  return ⟨nodes, ← u64At R rlp 1⟩

/-- The first item is the version. -/
def PingMessage.encode (m : PingMessage) : Bytes :=
  R.encodeList [R.encodeUint 4, m.fromEndpoint.encode R, m.toEndpoint.encode R, R.encodeUint m.expire.toNat]

def PingMessage.decode (rlp : Bytes) : Except DecoderError PingMessage := do
  let fromEndpoint ← Endpoint.decode R (← R.itemAt rlp 1)
  let toEndpoint ← Endpoint.decode R (← R.itemAt rlp 2)
  return ⟨fromEndpoint, toEndpoint, ← u64At R rlp 3⟩

def PongMessage.encode (m : PongMessage) : Bytes :=
  R.encodeList [m.toEndpoint.encode R, R.encodeBytes m.echo.bytes, R.encodeUint m.expire.toNat]

def PongMessage.decode (rlp : Bytes) : Except DecoderError PongMessage := do
  let toEndpoint ← Endpoint.decode R (← R.itemAt rlp 0)
  let echo ← R.hash 32 (← R.itemAt rlp 1)
  return ⟨toEndpoint, echo, ← u64At R rlp 2⟩

end Encoding

/-- `EgressMessage`, but for the sender by which a ping tells that it was answered. -/
inductive EgressMessage where
  | ping (m : PingMessage)
  | pong (m : PongMessage)
  | findNode (m : FindNodeMessage)
  | neighbours (m : NeighboursMessage)
  deriving DecidableEq

/-- `MessageId`. -/
inductive MessageId where
  | ping
  | pong
  | findNode
  | neighbours
  deriving DecidableEq, Repr

namespace MessageId

def toU8 : MessageId → UInt8
  | ping => 1
  | pong => 2
  | findNode => 3
  | neighbours => 4

def fromU8 (typ : UInt8) : Option MessageId :=
  if typ = 1 then some ping else if typ = 2 then some pong else if typ = 3 then some findNode
  else if typ = 4 then some neighbours else none

@[simp] theorem fromU8_toU8 (id : MessageId) : fromU8 id.toU8 = some id := by cases id <;> rfl

end MessageId

namespace EgressMessage

def messageId : EgressMessage → MessageId
  | ping _ => .ping
  | pong _ => .pong
  | findNode _ => .findNode
  | neighbours _ => .neighbours

def encode (R : Codec) : EgressMessage → Bytes
  | ping m => m.encode R
  | pong m => m.encode R
  | findNode m => m.encode R
  | neighbours m => m.encode R

end EgressMessage

/-! ## Datagrams -/

def maxPacketSize : Nat := 1280

/-- Why a datagram is not handled. -/
inductive IngressError where
  | ipv6Unsupported
  | packetTooShort (len minLen : Nat)
  | hashCheckFailed (computed check : Bytes)
  | secp (e : SecpError)
  | decoder (e : DecoderError)
  | invalidMessageType (typ : UInt8)
  deriving DecidableEq, Repr

/-- A datagram that was opened: the id of its signer, its hash, its type and the message in it. -/
structure Opened where
  remoteId : NodeId
  hash : H256
  typ : UInt8
  data : Bytes
  deriving DecidableEq

section Datagram

variable (c : Crates)

/-- `pk2id`. -/
def pk2id (pk : c.PublicKey) : NodeId := (c.serializeUncompressed pk).drop 1 64 (by decide)

/-- The signature, the recovery id and the payload. -/
def signed (sk : c.SecretKey) (payload : Bytes) : Bytes :=
  let (rec, sig) := c.signRecoverable (c.keccak256 payload) sk
  sig.bytes ++ c.recoveryIdToByte rec :: payload

/-- The datagram that the egress router assembles. -/
def EgressMessage.datagram (sk : c.SecretKey) (m : EgressMessage) : Bytes :=
  let sigBytes := signed c sk (m.messageId.toU8 :: m.encode c.rlp)
  (c.keccak256 sigBytes).bytes ++ sigBytes

/-- Its hash. -/
def EgressMessage.hash (sk : c.SecretKey) (m : EgressMessage) : H256 :=
  c.keccak256 (signed c sk (m.messageId.toU8 :: m.encode c.rlp))

/-- The ingress router checks the hash of a datagram and recovers its signer. -/
def openDatagram (buf : Bytes) : Except IngressError Opened :=
  let minLen := 32 + 65 + 1
  if buf.length < minLen then .error (.packetTooShort buf.length minLen)
  else
    let hash := c.keccak256 (buf.drop 32)
    let checkHash := buf.take 32
    if checkHash ≠ hash.bytes then .error (.hashCheckFailed hash.bytes checkHash)
    else do
      let recId ← (c.recoveryIdFromByte (buf.getD 96 0)).mapError .secp
      let recSig ← (c.fromCompact ((buf.drop 32).take 64) recId).mapError .secp
      let publicKey ← (c.recover (c.keccak256 (buf.drop 97)) recSig).mapError .secp
      return ⟨pk2id c publicKey, hash, buf.getD 97 0, buf.drop 98⟩

variable {c} {sk : c.SecretKey} {m : EgressMessage}

theorem length_signed (payload : Bytes) : (signed c sk payload).length = 65 + payload.length := by
  simp only [signed, List.length_append, List.length_cons, FixedBytes.length_bytes]
  omega

theorem length_datagram (m : EgressMessage) : (m.datagram c sk).length = 98 + (m.encode c.rlp).length := by
  simp only [EgressMessage.datagram, List.length_append, length_signed, List.length_cons, FixedBytes.length_bytes]
  omega

/-- **A datagram is opened** under the id of its signer. -/
theorem openDatagram_datagram (hc : c.SecpLaws) (sk : c.SecretKey) (m : EgressMessage) :
    openDatagram c (m.datagram c sk) =
      .ok ⟨pk2id c (c.fromSecretKey sk), m.hash c sk, m.messageId.toU8, m.encode c.rlp⟩ := by
  have hlen : (m.datagram c sk).length = 98 + (m.encode c.rlp).length := length_datagram m
  have hhash : (m.datagram c sk).take 32 = (m.hash c sk).bytes := List.take_left' (by simp)
  have hsigned : (m.datagram c sk).drop 32 = signed c sk (m.messageId.toU8 :: m.encode c.rlp) :=
    List.drop_left' (by simp)
  obtain ⟨sig, hsig, hrec⟩ := hc.recover_sign (c.keccak256 (m.messageId.toU8 :: m.encode c.rlp)) sk
  -- what follows the hash and the signature
  have hrest : (m.datagram c sk).drop 96 =
      c.recoveryIdToByte (c.signRecoverable (c.keccak256 (m.messageId.toU8 :: m.encode c.rlp)) sk).1 ::
        m.messageId.toU8 :: m.encode c.rlp := by
    rw [show 96 = 32 + 64 from rfl, ← List.drop_drop, hsigned]
    exact List.drop_left' (by simp)
  have hget : ∀ i x, ((m.datagram c sk).drop 96)[i]? = some x → (m.datagram c sk).getD (96 + i) 0 = x := by
    intro i x hx
    rw [List.getElem?_drop] at hx
    rw [List.getD_eq_getElem?_getD, hx, Option.getD_some]
  have hdrop : ∀ i, (m.datagram c sk).drop (96 + i) = ((m.datagram c sk).drop 96).drop i := fun i => by
    rw [List.drop_drop]
  have hsigtake : ((m.datagram c sk).drop 32).take 64 =
      (c.signRecoverable (c.keccak256 (m.messageId.toU8 :: m.encode c.rlp)) sk).2.bytes := by
    rw [hsigned]
    exact List.take_left' (by simp)
  unfold openDatagram
  simp only
  rw [if_neg (by omega), if_neg (by rw [hhash, hsigned]; exact fun h => h rfl), hsigtake,
    hget 0 _ (by rw [hrest]; rfl), hget 1 _ (by rw [hrest]; rfl), hdrop 1, hdrop 2, hrest, hsigned]
  simp only [hc.recoveryId_byte, hsig, hrec, List.drop_succ_cons, List.drop_zero, Except.mapError, bind, Except.bind]
  rfl

end Datagram

end Discv4

end EthereumSentry
