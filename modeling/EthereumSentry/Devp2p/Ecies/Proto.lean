import EthereumSentry.Devp2p.Ecies.Algorithm

/-!
# `ecies/proto.rs`

The codec of the encrypted transport: `decode` takes messages off a receive buffer, `encode` appends them to a send
buffer. The state of `decode` is the codec with its buffer.
-/

set_option autoImplicit false

namespace EthereumSentry

/-- Current state of a connection. -/
inductive ECIESState where
  | auth
  | ack
  | header
  | body
  deriving DecidableEq, Repr

/-- `EgressECIESValue`; the handshake values carry what encoding them draws. -/
inductive EgressECIESValue (c : Crates) where
  | auth (rng : ECIES.AuthRng c)
  | ack (rng : ECIES.EncryptRng c)
  | message (data : Bytes)

inductive IngressECIESValue where
  | authReceive (id : PeerId)
  | ack
  | message (data : Bytes)
  deriving DecidableEq

/-- `io::Error`: a kind and what it wraps. -/
inductive IoError where
  /-- `From<ECIESError>`: kind `Other`, message `ECIES error: ..`. -/
  | ecies (e : ECIESError)
  /-- `From<snap::Error>`. -/
  | snap (e : SnapError)
  | other (msg : String)
  | invalidInput (msg : String)
  | brokenPipe (msg : String)
  /-- Kind `Other`: the ECIES stream expected a message and received a value. -/
  | unexpectedValue (received : IngressECIESValue)
  /-- Kind `Other`: the ECIES stream expected a message and received an error. -/
  | unexpectedError (received : IoError)
  deriving DecidableEq

structure ECIESCodec (c : Crates) where
  ecies : ECIES c
  state : ECIESState

/-- A codec with its receive buffer. -/
structure Decoding (c : Crates) where
  codec : ECIESCodec c
  buf : Bytes

namespace ECIESCodec

variable {c : Crates}

/-- `new_server`, with the nonce and the ephemeral key that it draws. -/
def newServer (secretKey : c.SecretKey) (nonce : H256) (ephemeralSecretKey : c.SecretKey) : ECIESCodec c :=
  ⟨.newStaticServer secretKey nonce ephemeralSecretKey, .auth⟩

/-- `new_client`, with the nonce and the ephemeral key that it draws. -/
def newClient (secretKey : c.SecretKey) (serverId : PeerId) (nonce : H256) (ephemeralSecretKey : c.SecretKey) :
    Except ECIESError (ECIESCodec c) := do
  .ok ⟨← ECIES.newStaticClient secretKey serverId nonce ephemeralSecretKey, .auth⟩

/-- Run a function of the algorithm inside `decode`. -/
def inDecode {α : Type} (x : Prog ECIESError (ECIES c) α) : Prog IoError (Decoding c) α :=
  Prog.zoom (·.codec.ecies) (fun e d => { d with codec := { d.codec with ecies := e } }) .ecies x

/-- Run a function of the algorithm inside `encode`. -/
def inEncode {α : Type} (x : Prog ECIESError (ECIES c) α) : Prog IoError (ECIESCodec c) α :=
  Prog.zoom (·.ecies) (fun e s => { s with ecies := e }) .ecies x

theorem run_inDecode {α : Type} {x : Prog ECIESError (ECIES c) α} {s : Decoding c} {a : α} {e : ECIES c}
    (h : x.run s.codec.ecies = .ok a e) :
    (inDecode x).run s = .ok a { s with codec := { s.codec with ecies := e } } := Prog.run_zoom_ok h

theorem run_inEncode {α : Type} {x : Prog ECIESError (ECIES c) α} {s : ECIESCodec c} {a : α} {e : ECIES c}
    (h : x.run s.ecies = .ok a e) : (inEncode x).run s = .ok a { s with ecies := e } := Prog.run_zoom_ok h

/-- `buf.split_to(n)`. -/
def splitTo (n : Nat) : Prog IoError (Decoding c) Bytes := do
  let s ← get
  let (data, rest) ← Prog.splitAt s.buf n
  modify fun s => { s with buf := rest }
  pure data

theorem run_splitTo {n : Nat} {s : Decoding c} (h : n ≤ s.buf.length) :
    (splitTo n).run s = .ok (s.buf.take n) { s with buf := s.buf.drop n } := by
  unfold splitTo
  rw [Prog.run_bind_ok (EStateM.run_get _), Prog.run_bind_ok (Prog.run_splitAt h s)]
  rfl

def setState (state : ECIESState) : Prog IoError (Decoding c) Unit :=
  modify fun s => { s with codec := { s.codec with state := state } }

/-- The announced size of a handshake message and its two length bytes. -/
def announced (buf : Bytes) : Nat := ofBe (buf.take 2)

/-- A handshake message off the front of the buffer, when all of it has arrived. -/
def decodeHandshake (read : Bytes → Prog ECIESError (ECIES c) Unit)
    (value : Prog IoError (Decoding c) IngressECIESValue) : Prog IoError (Decoding c) (Option IngressECIESValue) := do
  let s ← get
  if s.buf.length < 2 then pure none
  else
    let totalSize := announced s.buf + 2
    if s.buf.length < totalSize then pure none
    else
      let data ← splitTo totalSize
      inDecode (read data)
      setState .header
      let v ← value
      pure (some v)

/-- The `Body` arm of `decode`. -/
def decodeBody : Prog IoError (Decoding c) (Option IngressECIESValue) := do
  let len ← inDecode ECIES.bodyLen
  let s ← get
  if s.buf.length < len then pure none
  else
    let data ← splitTo len
    let ret ← inDecode (ECIES.readBody data)
    setState .header
    pure (some (.message ret))

/-- The `Header` arm of `decode`; the loop then takes the `Body` arm. -/
def decodeHeader : Prog IoError (Decoding c) (Option IngressECIESValue) := do
  let s ← get
  if s.buf.length < ECIES.headerLen then pure none
  else
    let data ← splitTo ECIES.headerLen
    let _ ← inDecode (ECIES.readHeader data)
    setState .body
    decodeBody

/-- `Decoder::decode`. -/
def decode : Prog IoError (Decoding c) (Option IngressECIESValue) := do
  let s ← get
  match s.codec.state with
  | .auth => decodeHandshake ECIES.readAuth do
      let s ← get
      let id ← Prog.unwrap s.codec.ecies.remoteId
      pure (.authReceive id)
  | .ack => decodeHandshake ECIES.readAck (pure .ack)
  | .header => decodeHeader
  | .body => decodeBody

/-- `Encoder::encode`: the bytes appended to the buffer. -/
def encode : EgressECIESValue c → Prog IoError (ECIESCodec c) Bytes
  | .auth rng => do
    modify fun s => { s with state := .ack }
    inEncode (ECIES.writeAuth rng)
  | .ack rng => do
    modify fun s => { s with state := .header }
    inEncode (ECIES.writeAck rng)
  | .message data => do
    let header ← inEncode (ECIES.writeHeader data.length)
    let body ← inEncode (ECIES.writeBody data)
    pure (header ++ body)

end ECIESCodec

end EthereumSentry
