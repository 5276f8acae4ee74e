import Mathlib.Data.List.Sort
import EthereumSentry.Devp2p.Types
import EthereumSentry.Devp2p.Ecies.Stream

/-!
# `peer.rs`

The RLPx peer stream: the exchange of `Hello` messages, and the capability messages and control messages after it. It
runs over any stream of frames (`Frames`): the ECIES stream is one (`ECIESStream.frames`), a queue of frames in memory
another (`FrameQueue.frames`). Integers of type `usize` have 64 bits, and an addition that overflows panics.
-/

set_option autoImplicit false

namespace EthereumSentry

/-! ## Streams of frames -/

/-- A stream that frames are received from and sent to. -/
structure Frames (S : Type) where
  pollNext : Prog IoError S (Poll (Option Bytes))
  startSend : Bytes → Prog IoError S Unit

/-- The ECIES stream. -/
def ECIESStream.frames (c : Crates) : Frames (ECIESStream c) := ⟨pollNext, startSend⟩

/-- Frames in memory. -/
structure FrameQueue where
  arrived : List Bytes
  closed : Bool
  sent : List Bytes

/-- Take frames that have arrived, keep frames that are sent. -/
def FrameQueue.frames : Frames FrameQueue where
  pollNext := do
    let s ← get
    match s.arrived with
    | frame :: rest => do
      modify fun s => { s with arrived := rest }
      pure (.ready (some frame))
    | [] => if s.closed then pure (.ready none) else pure .pending
  startSend frame := modify fun s => { s with sent := s.sent ++ [frame] }

/-! ## Messages -/

/-- `MAX_PAYLOAD_SIZE`. -/
def maxPayloadSize : Nat := 16 * 1024 * 1024

/-- The values of a `usize` are below this. -/
def usizeBound : Nat := 2 ^ 64

structure CapabilityMessage where
  name : CapabilityName
  version : Nat
  deriving DecidableEq

structure HelloMessage where
  protocolVersion : Nat
  clientVersion : String
  capabilities : List CapabilityMessage
  port : Nat
  id : PeerId
  deriving DecidableEq

/-- The bytes of a string. -/
def utf8 (s : String) : Bytes := s.toUTF8.data.toList

/-- `str::from_utf8`. -/
def ofUtf8 (b : Bytes) : Option String := String.fromUTF8? ⟨b.toArray⟩

namespace CapabilityName

/-- `rlp::Encodable`. -/
def encode (c : Crates) (n : CapabilityName) : Bytes := c.rlp.encodeBytes n.bytes

/-- `rlp::Decodable`. -/
def decode (c : Crates) (b : Bytes) : Except Rlp.DecoderError CapabilityName := do
  match ofUtf8 (← c.rlp.data b) with
  | none => .error (.custom "should be a UTF-8 string")
  | some s =>
    match ofString? s with
    | none => .error .rlpIsTooBig
    | some n => .ok n

end CapabilityName

namespace CapabilityMessage

/-- `rlp::Encodable`. -/
def encode (c : Crates) (m : CapabilityMessage) : Bytes :=
  c.rlp.encodeList [m.name.encode c, c.rlp.encodeUint m.version]

/-- `rlp::Decodable`. -/
def decode (c : Crates) (b : Bytes) : Except Rlp.DecoderError CapabilityMessage := do
  let name ← CapabilityName.decode c (← c.rlp.itemAt b 0)
  let version ← c.rlp.uint 8 (← c.rlp.itemAt b 1)
  .ok ⟨name, version⟩

end CapabilityMessage

namespace HelloMessage

/-- `rlp::Encodable`. -/
def encode (c : Crates) (m : HelloMessage) : Bytes :=
  c.rlp.encodeList [c.rlp.encodeUint m.protocolVersion, c.rlp.encodeBytes (utf8 m.clientVersion),
    c.rlp.encodeList (m.capabilities.map (·.encode c)), c.rlp.encodeUint m.port, c.rlp.encodeBytes m.id.bytes]

/-- A `String` of the list. -/
def decodeString (c : Crates) (b : Bytes) : Except Rlp.DecoderError String := do
  match ofUtf8 (← c.rlp.value b) with
  | none => .error .rlpExpectedToBeData
  | some s => .ok s

/-- `rlp::Decodable`. -/
def decode (c : Crates) (b : Bytes) : Except Rlp.DecoderError HelloMessage := do
  let protocolVersion ← c.rlp.uint 8 (← c.rlp.itemAt b 0)
  let clientVersion ← decodeString c (← c.rlp.itemAt b 1)
  let capabilities ← (c.rlp.items (← c.rlp.itemAt b 2)).mapM (CapabilityMessage.decode c)
  let port ← c.rlp.uint 2 (← c.rlp.itemAt b 3)
  let id ← c.rlp.hash 64 (← c.rlp.itemAt b 4)
  .ok ⟨protocolVersion, clientVersion, capabilities, port, id⟩

end HelloMessage

structure SubprotocolMessage where
  capName : CapabilityName
  message : Message
  deriving DecidableEq

inductive PeerMessage where
  | disconnect (reason : DisconnectReason)
  | ping
  | pong
  | subprotocol (m : SubprotocolMessage)
  deriving DecidableEq

/-- `rlp::EMPTY_LIST_RLP`. -/
def emptyListRlp : Bytes := [0xc0]

/-- `Display` of a decoder error, which is its `Debug` form. -/
def displayDecoderError : Rlp.DecoderError → String
  | .rlpIsTooBig => "RlpIsTooBig"
  | .rlpIsTooShort => "RlpIsTooShort"
  | .rlpExpectedToBeList => "RlpExpectedToBeList"
  | .rlpExpectedToBeData => "RlpExpectedToBeData"
  | .rlpIncorrectListLen => "RlpIncorrectListLen"
  | .rlpDataLenWithZeroPrefix => "RlpDataLenWithZeroPrefix"
  | .rlpListLenWithZeroPrefix => "RlpListLenWithZeroPrefix"
  | .rlpInvalidIndirection => "RlpInvalidIndirection"
  | .rlpInconsistentLengthAndData => "RlpInconsistentLengthAndData"
  | .rlpInvalidLength => "RlpInvalidLength"
  | .custom msg => "Custom(\"" ++ msg ++ "\")"

/-! ## The stream -/

structure PeerStream (S : Type) where
  stream : S
  sharedCapabilities : List CapabilityInfo
  /-- A compressor is there. -/
  snappy : Bool
  disconnected : Bool

namespace PeerStream

variable {S : Type} (c : Crates) (F : Frames S)

/-- Run a function of the stream of frames. -/
def inStream {α : Type} (x : Prog IoError S α) : Prog IoError (PeerStream S) α :=
  Prog.zoom (·.stream) (fun t s => { s with stream := t }) id x

/-! ### Receiving -/

/-- The payload of a frame after its message id, decompressed. -/
def readPayload (val : Bytes) : Prog IoError (PeerStream S) Bytes := do
  let s ← get
  let input ← Prog.sliceFrom val 1
  if s.snappy then do
    let payloadLen ← Prog.ofExcept .snap (c.decompressLen input)
    if maxPayloadSize < payloadLen then
      Prog.fail (.invalidInput s!"payload size ({payloadLen}) exceeds limit ({maxPayloadSize} bytes)")
    else Prog.ofExcept .snap (c.decompressVec input)
  else pure input

/-- The reason in the payload of a `Disconnect`: the first item of a list. -/
def readReason (data : Bytes) : Option DisconnectReason :=
  ((c.rlp.itemAt data 0).bind (c.rlp.uint 1)).toOption.bind DisconnectReason.fromU8

/-- Message ids below `0x10`. -/
def readReserved (messageId : Nat) (data : Bytes) : Prog IoError (PeerStream S) PeerMessage :=
  match messageId with
  | 0x01 => do
    modify fun s => { s with disconnected := true }
    match readReason c data with
    | some reason => pure (.disconnect reason)
    | none => Prog.fail (.other s!"peer disconnected with malformed message: {c.hexEncode data}")
  | 0x02 => pure .ping
  | 0x03 => pure .pong
  | _ => Prog.fail (.other "unhandled reserved message")

/-- The loop over the capabilities: the id that is left, and the index of its capability. -/
def demux : List CapabilityInfo → Nat → Nat → Nat × Nat
  | [], messageId, index => (messageId, index)
  | cap :: caps, messageId, index =>
    if cap.length < messageId then demux caps (messageId - cap.length) (index + 1) else demux caps messageId index

/-- Message ids from `0x10` on. -/
def readSubprotocol (messageId : Nat) (data : Bytes) : Prog IoError (PeerStream S) PeerMessage := do
  let s ← get
  let messageId ← Prog.sub messageId 0x10
  let (messageId, index) := demux s.sharedCapabilities messageId 0
  if s.sharedCapabilities.length ≤ index then Prog.fail (.other "invalid message id (out of cap range)")
  else do
    let cap ← Prog.unwrap s.sharedCapabilities[index]?
    pure (.subprotocol ⟨cap.name, ⟨messageId, data⟩⟩)

/-- A frame that was received. -/
def onFrame (val : Bytes) : Prog IoError (PeerStream S) PeerMessage := do
  let idBytes ← Prog.slice val 0 1
  match c.rlp.uint 8 idBytes with
  | .error e => Prog.fail (.other s!"message id parsing failed (invalid): {displayDecoderError e}")
  | .ok messageId => do
    let data ← readPayload c val
    if messageId < 0x10 then readReserved c messageId data else readSubprotocol messageId data

/-- `poll_next`. -/
def pollNext : Prog IoError (PeerStream S) (Poll (Option PeerMessage)) := do
  let s ← get
  if s.disconnected then pure (.ready none)
  else
    match ← inStream F.pollNext with
    | .pending => pure .pending
    | .ready none => pure (.ready none)
    | .ready (some val) => do
      let m ← onFrame c val
      pure (.ready (some m))

/-! ### Sending -/

/-- The lengths of the capabilities before one, added up. -/
def addLengths (cap : CapabilityInfo) : List CapabilityInfo → Nat → Prog IoError (PeerStream S) Nat
  | [], messageId => pure messageId
  | scap :: caps, messageId =>
    if scap = cap then pure messageId
    else do
      let messageId ← Prog.add usizeBound messageId scap.length
      addLengths cap caps messageId

/-- The message id and the payload of a message; nothing when the remote does not support it. -/
def toWire : PeerMessage → Prog IoError (PeerStream S) (Option (Nat × Bytes))
  | .disconnect reason => do
    modify fun s => { s with disconnected := true }
    pure (some (0x01, c.rlp.encodeUint reason.toU8))
  | .ping => pure (some (0x02, emptyListRlp))
  | .pong => pure (some (0x03, emptyListRlp))
  | .subprotocol ⟨capName, ⟨id, data⟩⟩ => do
    let s ← get
    match s.sharedCapabilities.find? (·.name = capName) with
    | none => pure none
    | some cap =>
      if cap.length ≤ id then pure none
      else do
        let messageId ← addLengths cap s.sharedCapabilities 0x10
        let messageId ← Prog.add usizeBound messageId id
        pure (some (messageId, data))

/-- The payload as it is sent, compressed. -/
def writePayload (payload : Bytes) : Prog IoError (PeerStream S) Bytes := do
  let s ← get
  if s.snappy then Prog.unwrapExcept (c.compress payload (c.maxCompressLen payload.length)) else pure payload

/-- `start_send`. -/
def startSend (message : PeerMessage) : Prog IoError (PeerStream S) Unit := do
  let s ← get
  if s.disconnected then Prog.fail (.brokenPipe "disconnection requested")
  else
    match ← toWire c message with
    | none => pure ()
    | some (messageId, payload) => do
      let out ← writePayload c payload
      inStream (F.startSend (c.rlp.encodeUint messageId ++ out))

end PeerStream

/-! ## The exchange of `Hello` -/

/-- What `PeerStream::new` fails with. -/
inductive HelloError where
  | io (e : IoError)
  /-- `hello failed (no value)`. -/
  | noValue
  /-- `hello failed (message id)`. -/
  | messageId (e : Rlp.DecoderError)
  /-- `explicit disconnect: ..`. -/
  | explicitDisconnect (reason : String)
  /-- `Hello failed because message id is not 0 but ..`. -/
  | unexpectedMessage (messageId : Nat) (payload : Bytes)
  /-- `hello failed (rlp)`. -/
  | rlp (e : Rlp.DecoderError)
  /-- `handshake failed - no shared capabilities`. -/
  | noSharedCapabilities
  deriving DecidableEq

namespace PeerStream

variable {S : Type} (c : Crates) (F : Frames S)

/-- The frame of a hello message. -/
def helloFrame (hello : HelloMessage) : Bytes := c.rlp.encodeUint 0 ++ hello.encode c

/-- The first frame that was received. -/
def readHello (hello : Bytes) : Prog HelloError S HelloMessage := do
  let idBytes ← Prog.slice hello 0 1
  let messageId ← Prog.ofExcept .messageId (c.rlp.uint 8 idBytes)
  let payload ← Prog.sliceFrom hello 1
  match messageId with
  | 0 => Prog.ofExcept .rlp (HelloMessage.decode c payload)
  | 1 => Prog.fail (.explicitDisconnect (((readReason c payload).map (·.display)).getD "(unknown)"))
  | _ => Prog.fail (.unexpectedMessage messageId payload)

/-- The capabilities that the remote has too, the highest versions only, by name. -/
def shareCapabilities (capabilities : List CapabilityInfo) (remote : List CapabilityMessage) : List CapabilityInfo :=
  let shared := capabilities.filter fun cap => remote.any fun v => v.name = cap.name ∧ v.version = cap.version
  let highest := shared.foldl (fun kept cap => kept.filter fun v => v.name ≠ cap.name ∨ cap.version ≤ v.version) shared
  highest.mergeSort fun a b => ¬b.name < a.name

/-- `new`, over a transport whose handshake is complete. -/
def new (id : PeerId) (protocolVersion : ProtocolVersion) (clientVersion : String)
    (capabilities : List CapabilityInfo) (port : Nat) : Prog HelloError S (Poll (PeerStream S)) := do
  let hello : HelloMessage :=
    ⟨protocolVersion.toUsize, clientVersion, capabilities.map fun cap => ⟨cap.name, cap.version⟩, port, id⟩
  Prog.zoom (fun s => s) (fun s _ => s) .io (F.startSend (helloFrame c hello))
  match ← Prog.zoom (fun s => s) (fun s _ => s) .io F.pollNext with
  | .pending => pure .pending
  | .ready none => Prog.fail .noValue
  | .ready (some frame) => do
    let val ← readHello c frame
    let shared := shareCapabilities capabilities val.capabilities
    let snappy := match protocolVersion with
      | .v4 => false
      | .v5 => true
    if shared.isEmpty then do
      Prog.zoom (fun s => (⟨s, shared, snappy, false⟩ : PeerStream S)) (fun s _ => s.stream) .io
        (Prog.ignore (startSend c F (.disconnect .uselessPeer)))
      Prog.fail .noSharedCapabilities
    else do
      let s ← get
      pure (.ready ⟨s, shared, snappy, false⟩)

end PeerStream

end EthereumSentry
