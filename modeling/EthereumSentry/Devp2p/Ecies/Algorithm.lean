import EthereumSentry.Devp2p.Crates

/-!
# `ecies/algorithm.rs` and `mac.rs`

The handshake messages and the frames of the encrypted transport. The state `ECIES` has the fields of the source. A
function of the source that takes `&mut self` is a `Prog` over it: its errors are `ECIESError`, and what the source
would panic on (a slice out of range, an `unwrap` of an unset field) is a panic. Randomness drawn by the source is
an argument.
-/

set_option autoImplicit false

namespace EthereumSentry

/-! ## `errors.rs` -/

/-- What an `anyhow::Error` wraps. -/
inductive Cause where
  | secp (e : SecpError)
  | rlp (e : Rlp.DecoderError)
  deriving DecidableEq, Repr

inductive ECIESError where
  | tagCheckFailed
  | invalidAuthData
  | invalidAckData
  | other (context : Option String) (cause : Cause)
  deriving DecidableEq, Repr

/-- `From<secp256k1::Error>`. -/
def ECIESError.ofSecp (e : SecpError) : ECIESError := .other none (.secp e)

/-- `From<rlp::DecoderError>`. -/
def ECIESError.ofRlp (e : Rlp.DecoderError) : ECIESError := .other none (.rlp e)

/-- `.context(msg)?` on a result of `secp256k1`. -/
def ECIESError.withContext (msg : String) (e : SecpError) : ECIESError := .other (some msg) (.secp e)

/-! ## `util.rs` -/

section Util

variable {c : Crates}

def pk2id (pk : c.PublicKey) : PeerId := (c.serializeUncompressed pk).drop 1 64 rfl

def id2pk (id : PeerId) : Except SecpError c.PublicKey := c.fromSlice (4 :: id.bytes)

/-- `hmac_sha256`: the inputs, then the authenticated data. -/
def hmacSha256 (c : Crates) (key : Bytes) (input : List Bytes) (authData : Bytes) : H256 :=
  c.hmacSha256 key (input.flatten ++ authData)

end Util

/-! ## `mac.rs` -/

/-- A rolling MAC; the hasher is the bytes that it absorbed. -/
structure MAC where
  secret : H256
  hasher : Bytes

namespace MAC

/-- `MAC::new`. -/
def new (secret : H256) : MAC := ⟨secret, []⟩

variable (c : Crates)

def update (m : MAC) (data : Bytes) : MAC := { m with hasher := m.hasher ++ data }

def digest (m : MAC) : H128 := (c.keccak256 m.hasher).slice 0 16 (by decide)

def updateHeader (m : MAC) (data : H128) : MAC :=
  let encrypted := c.aes256Block m.secret (m.digest c)
  m.update (encrypted.xor data).bytes

def updateBody (m : MAC) (data : Bytes) : MAC :=
  let m := m.update data
  let prev := m.digest c
  let encrypted := c.aes256Block m.secret (m.digest c)
  m.update (encrypted.xor prev).bytes

end MAC

/-! ## Key derivation -/

/-- `PROTOCOL_VERSION`. -/
def eciesProtocolVersion : Nat := 4

/-- `ecdh_x`. -/
def ecdhX {c : Crates} (pk : c.PublicKey) (sk : c.SecretKey) : H256 := c.sharedX pk sk

/-- `kdf` into a destination of `blocks` hashes; the counter starts at one. -/
def kdf (c : Crates) (secret : H256) (s1 : Bytes) (blocks : Nat) : Bytes :=
  (List.range blocks).flatMap fun i => (c.sha256 (be 4 (i + 1) ++ secret.bytes ++ s1)).bytes

theorem length_kdf (c : Crates) (secret : H256) (s1 : Bytes) (blocks : Nat) :
    (kdf c secret s1 blocks).length = 32 * blocks := by
  induction blocks with
  | zero => rfl
  | succ n ih =>
    rw [kdf, List.range_succ, List.flatMap_append, List.length_append, ← kdf, ih]
    simp
    omega

/-- The 32 bytes of `kdf(x, &[], &mut key)`. -/
def kdf32 (c : Crates) (x : H256) : H256 := ⟨kdf c x [] 1, length_kdf c x [] 1⟩

/-- The cipher key `key[0..16]`. -/
def encKey (c : Crates) (x : H256) : H128 := (kdf32 c x).slice 0 16 (by decide)

/-- The MAC key `sha256(key[16..32])`. -/
def macKey (c : Crates) (x : H256) : H256 := c.sha256 ((kdf32 c x).slice 16 16 (by decide)).bytes

/-- AES-256 in counter mode at a position of its keystream. -/
structure Aes256Ctr where
  key : H256
  iv : H128
  pos : Nat

namespace Aes256Ctr

/-- `Aes256Ctr::new`. -/
def new (key : H256) (iv : H128) : Aes256Ctr := ⟨key, iv, 0⟩

/-- `encrypt` and `decrypt`: exclusive or with the keystream. -/
def apply (c : Crates) (a : Aes256Ctr) (data : Bytes) : Bytes := xorStream (c.aes256Ctr a.key a.iv) a.pos data

/-- The position after `n` bytes. -/
def advance (a : Aes256Ctr) (n : Nat) : Aes256Ctr := { a with pos := a.pos + n }

@[simp] theorem length_apply (c : Crates) (a : Aes256Ctr) (data : Bytes) : (a.apply c data).length = data.length :=
  length_xorStream _ _ _

@[simp] theorem apply_apply (c : Crates) (a : Aes256Ctr) (data : Bytes) : a.apply c (a.apply c data) = data :=
  xorStream_xorStream _ _ _

end Aes256Ctr

/-! ## The state -/

structure ECIES (c : Crates) where
  secretKey : c.SecretKey
  publicKey : c.PublicKey
  remotePublicKey : Option c.PublicKey
  remoteId : Option PeerId
  ephemeralSecretKey : c.SecretKey
  ephemeralPublicKey : c.PublicKey
  ephemeralSharedSecret : Option H256
  remoteEphemeralPublicKey : Option c.PublicKey
  nonce : H256
  remoteNonce : Option H256
  ingressAes : Option Aes256Ctr
  egressAes : Option Aes256Ctr
  ingressMac : Option MAC
  egressMac : Option MAC
  initMsg : Option Bytes
  remoteInitMsg : Option Bytes
  bodySize : Option Nat

namespace ECIES

variable {c : Crates}

/-- `new_static_client`. -/
def newStaticClient (secretKey : c.SecretKey) (remoteId : PeerId) (nonce : H256) (ephemeralSecretKey : c.SecretKey) :
    Except ECIESError (ECIES c) :=
  match id2pk remoteId with
  | .error e => .error (.ofSecp e)
  | .ok remotePublicKey => .ok {
      secretKey := secretKey
      publicKey := c.fromSecretKey secretKey
      ephemeralSecretKey := ephemeralSecretKey
      ephemeralPublicKey := c.fromSecretKey ephemeralSecretKey
      nonce := nonce
      remotePublicKey := some remotePublicKey
      remoteEphemeralPublicKey := none
      remoteNonce := none
      ephemeralSharedSecret := none
      initMsg := none
      remoteInitMsg := none
      remoteId := some remoteId
      bodySize := none
      egressAes := none
      ingressAes := none
      egressMac := none
      ingressMac := none }

/-- `new_static_server`. -/
def newStaticServer (secretKey : c.SecretKey) (nonce : H256) (ephemeralSecretKey : c.SecretKey) : ECIES c where
  secretKey := secretKey
  publicKey := c.fromSecretKey secretKey
  ephemeralSecretKey := ephemeralSecretKey
  ephemeralPublicKey := c.fromSecretKey ephemeralSecretKey
  nonce := nonce
  remotePublicKey := none
  remoteEphemeralPublicKey := none
  remoteNonce := none
  ephemeralSharedSecret := none
  initMsg := none
  remoteInitMsg := none
  remoteId := none
  bodySize := none
  egressAes := none
  ingressAes := none
  egressMac := none
  ingressMac := none

/-! ## Handshake messages -/

/-- What `encrypt_message` draws. -/
structure EncryptRng (c : Crates) where
  secretKey : c.SecretKey
  iv : H128

/-- What `write_auth` draws besides: the padding, from `gen_range(100..=300)`. -/
structure AuthRng (c : Crates) extends EncryptRng c where
  padding : Nat
  padding_ge : 100 ≤ padding
  padding_le : padding ≤ 300

/-- `encrypt_message`: the bytes appended to the output. -/
def encryptMessage (rng : EncryptRng c) (data : Bytes) : Prog ECIESError (ECIES c) Bytes := do
  let s ← get
  let remotePublicKey ← Prog.unwrap s.remotePublicKey
  let x := ecdhX remotePublicKey rng.secretKey
  let encrypted := xorStream (c.aes128Ctr (encKey c x) rng.iv) 0 data
  let totalSize ← if 65 + 16 + data.length + 32 < 2 ^ 16 then pure (65 + 16 + data.length + 32) else Prog.crash
  let tag := hmacSha256 c (macKey c x).bytes [rng.iv.bytes, encrypted] (be 2 totalSize)
  pure ((c.serializeUncompressed (c.fromSecretKey rng.secretKey)).bytes ++ rng.iv.bytes ++ encrypted ++ tag.bytes)

/-- `decrypt_message`: four splits of the received bytes, then the tag. -/
def decryptMessage (data : Bytes) : Prog ECIESError (ECIES c) Bytes := do
  let (authData, encrypted) ← Prog.splitAt data 2
  let (pubkeyBytes, encrypted) ← Prog.splitAt encrypted 65
  let publicKey ← Prog.ofExcept (.withContext s!"bad public key {c.hexEncode pubkeyBytes}") (c.fromSlice pubkeyBytes)
  let tagAt ← Prog.sub encrypted.length 32
  let (dataIv, tagBytes) ← Prog.splitAt encrypted tagAt
  let (ivBytes, encryptedData) ← Prog.splitAt dataIv 16
  let tag ← Prog.unwrap (FixedBytes.ofBytes? 32 tagBytes)
  let iv ← Prog.unwrap (FixedBytes.ofBytes? 16 ivBytes)
  let s ← get
  let x := ecdhX publicKey s.secretKey
  let checkTag := hmacSha256 c (macKey c x).bytes [iv.bytes, encryptedData] authData
  if checkTag ≠ tag then Prog.fail .tagCheckFailed
  else pure (xorStream (c.aes128Ctr (encKey c x) iv) 0 encryptedData)

/-- `create_auth_unencrypted`. -/
def createAuthUnencrypted (rng : AuthRng c) : Prog ECIESError (ECIES c) Bytes := do
  let s ← get
  let remotePublicKey ← Prog.unwrap s.remotePublicKey
  let x := ecdhX remotePublicKey s.secretKey
  let (recId, sig) := c.signRecoverable (x.xor s.nonce) s.ephemeralSecretKey
  let sigBytes := sig.bytes ++ [c.recoveryIdToByte recId]
  let out := c.rlp.encodeList [c.rlp.encodeBytes sigBytes, c.rlp.encodeBytes (pk2id s.publicKey).bytes,
    c.rlp.encodeBytes s.nonce.bytes, c.rlp.encodeUint eciesProtocolVersion]
  pure (out ++ List.replicate rng.padding 0)

/-- A message with its length in front: `u16::try_from(encrypted.len()).unwrap()`. -/
def withLength (encrypted : Bytes) : Prog ECIESError (ECIES c) Bytes :=
  if encrypted.length < 2 ^ 16 then pure (be 2 encrypted.length ++ encrypted) else Prog.crash

/-- `write_auth`: the bytes appended to the buffer. -/
def writeAuth (rng : AuthRng c) : Prog ECIESError (ECIES c) Bytes := do
  let unencrypted ← createAuthUnencrypted rng
  let encrypted ← encryptMessage rng.toEncryptRng unencrypted
  let out ← withLength encrypted
  modify fun s => { s with initMsg := some out }
  pure out

/-- `rlp.next().ok_or(RlpInvalidLength)?`: the next item of the list. -/
def nextItem : List Bytes → Prog ECIESError (ECIES c) (Bytes × List Bytes)
  | x :: rest => pure (x, rest)
  | [] => Prog.fail (.ofRlp .rlpInvalidLength)

/-- `parse_auth_unencrypted`. -/
def parseAuthUnencrypted (data : Bytes) : Prog ECIESError (ECIES c) Unit := do
  let rlp := c.rlp.items data
  let (item, rlp) ← nextItem rlp
  let sigdata ← Prog.ofExcept .ofRlp (c.rlp.data item)
  if sigdata.length ≠ 65 then Prog.fail .invalidAuthData
  else
    let (compact, last) ← Prog.splitAt sigdata 64
    let recByte ← Prog.unwrap last.head?
    let recId ← Prog.ofExcept .ofSecp (c.recoveryIdFromByte recByte)
    let signature ← Prog.ofExcept .ofSecp (c.fromCompact compact recId)
    let (item, rlp) ← nextItem rlp
    let remoteId ← Prog.ofExcept .ofRlp (c.rlp.hash 64 item)
    modify fun s => { s with remoteId := some remoteId }
    let remotePublicKey ← Prog.ofExcept (.withContext "failed to parse peer id") (id2pk remoteId)
    modify fun s => { s with remotePublicKey := some remotePublicKey }
    let (item, _) ← nextItem rlp
    let remoteNonce ← Prog.ofExcept .ofRlp (c.rlp.hash 32 item)
    modify fun s => { s with remoteNonce := some remoteNonce }
    let s ← get
    let remotePublicKey ← Prog.unwrap s.remotePublicKey
    let x := ecdhX remotePublicKey s.secretKey
    let remoteNonce ← Prog.unwrap s.remoteNonce
    let remoteEphemeral ← Prog.ofExcept .ofSecp (c.recover (x.xor remoteNonce) signature)
    modify fun s => { s with remoteEphemeralPublicKey := some remoteEphemeral }
    let s ← get
    let remoteEphemeral ← Prog.unwrap s.remoteEphemeralPublicKey
    modify fun s => { s with ephemeralSharedSecret := some (ecdhX remoteEphemeral s.ephemeralSecretKey) }

/-- `read_auth`: the message is kept before it is decrypted in place. -/
def readAuth (data : Bytes) : Prog ECIESError (ECIES c) Unit := do
  modify fun s => { s with remoteInitMsg := some data }
  let unencrypted ← decryptMessage data
  parseAuthUnencrypted unencrypted

/-- `create_ack_unencrypted`. -/
def createAckUnencrypted (s : ECIES c) : Bytes :=
  c.rlp.encodeList [c.rlp.encodeBytes (pk2id s.ephemeralPublicKey).bytes, c.rlp.encodeBytes s.nonce.bytes,
    c.rlp.encodeUint eciesProtocolVersion]

/-- `setup_frame`: the secrets of the session and the initial states of the ciphers and of the MACs. -/
def setupFrame (incoming : Bool) : Prog ECIESError (ECIES c) Unit := do
  let s ← get
  let remoteNonce ← Prog.unwrap s.remoteNonce
  let hNonce := if incoming then c.keccak256 (s.nonce.bytes ++ remoteNonce.bytes)
    else c.keccak256 (remoteNonce.bytes ++ s.nonce.bytes)
  let iv := FixedBytes.zero 16
  let ephemeral ← Prog.unwrap s.ephemeralSharedSecret
  let sharedSecret := c.keccak256 (ephemeral.bytes ++ hNonce.bytes)
  let aesSecret := c.keccak256 (ephemeral.bytes ++ sharedSecret.bytes)
  modify fun s => { s with
    ingressAes := some (Aes256Ctr.new aesSecret iv)
    egressAes := some (Aes256Ctr.new aesSecret iv) }
  let macSecret := c.keccak256 (ephemeral.bytes ++ aesSecret.bytes)
  modify fun s => { s with ingressMac := some ((MAC.new macSecret).update (macSecret.xor s.nonce).bytes) }
  let remoteInitMsg ← Prog.unwrap s.remoteInitMsg
  modify fun s => { s with ingressMac := s.ingressMac.map (·.update remoteInitMsg) }
  modify fun s => { s with egressMac := some ((MAC.new macSecret).update (macSecret.xor remoteNonce).bytes) }
  let initMsg ← Prog.unwrap s.initMsg
  modify fun s => { s with egressMac := s.egressMac.map (·.update initMsg) }

/-- `write_ack`: the bytes appended to the buffer. -/
def writeAck (rng : EncryptRng c) : Prog ECIESError (ECIES c) Bytes := do
  let s ← get
  let unencrypted := createAckUnencrypted s
  let encrypted ← encryptMessage rng unencrypted
  let buf ← withLength encrypted
  modify fun s => { s with initMsg := some buf }
  setupFrame true
  pure buf

/-- `parse_ack_unencrypted`. -/
def parseAckUnencrypted (data : Bytes) : Prog ECIESError (ECIES c) Unit := do
  let rlp := c.rlp.items data
  let (item, rlp) ← nextItem rlp
  let id ← Prog.ofExcept .ofRlp (c.rlp.hash 64 item)
  let remoteEphemeral ← Prog.ofExcept .ofSecp (id2pk id)
  modify fun s => { s with remoteEphemeralPublicKey := some remoteEphemeral }
  let (item, _) ← nextItem rlp
  let remoteNonce ← Prog.ofExcept .ofRlp (c.rlp.hash 32 item)
  modify fun s => { s with remoteNonce := some remoteNonce }
  let s ← get
  let remoteEphemeral ← Prog.unwrap s.remoteEphemeralPublicKey
  modify fun s => { s with ephemeralSharedSecret := some (ecdhX remoteEphemeral s.ephemeralSecretKey) }

/-- `read_ack`. -/
def readAck (data : Bytes) : Prog ECIESError (ECIES c) Unit := do
  modify fun s => { s with remoteInitMsg := some data }
  let unencrypted ← decryptMessage data
  parseAckUnencrypted unencrypted
  setupFrame false

/-! ## Frames -/

/-- `header_len`. -/
def headerLen : Nat := 32

/-- A body length rounded up to whole blocks. -/
def paddedLen (len : Nat) : Nat := if len % 16 = 0 then len else (len / 16 + 1) * 16

/-- Encrypt on the egress side. -/
def encrypt (data : Bytes) : Prog ECIESError (ECIES c) Bytes := do
  let s ← get
  let aes ← Prog.unwrap s.egressAes
  modify fun s => { s with egressAes := some (aes.advance data.length) }
  pure (aes.apply c data)

/-- Decrypt on the ingress side. -/
def decrypt (data : Bytes) : Prog ECIESError (ECIES c) Bytes := do
  let s ← get
  let aes ← Prog.unwrap s.ingressAes
  modify fun s => { s with ingressAes := some (aes.advance data.length) }
  pure (aes.apply c data)

/-- Update the egress MAC and read its digest. -/
def egressTag (f : MAC → MAC) : Prog ECIESError (ECIES c) H128 := do
  let s ← get
  let mac ← Prog.unwrap s.egressMac
  modify fun s => { s with egressMac := some (f mac) }
  pure ((f mac).digest c)

/-- Update the ingress MAC and read its digest. -/
def ingressTag (f : MAC → MAC) : Prog ECIESError (ECIES c) H128 := do
  let s ← get
  let mac ← Prog.unwrap s.ingressMac
  modify fun s => { s with ingressMac := some (f mac) }
  pure ((f mac).digest c)

/-- `write_header`: the bytes appended to the output. `write_uint` asserts that the size fits three bytes. -/
def writeHeader (size : Nat) : Prog ECIESError (ECIES c) Bytes := do
  let sizeBytes ← if size < 2 ^ 24 then pure (be 3 size) else Prog.crash
  let plain := sizeBytes ++ [194, 128, 128] ++ List.replicate 10 0
  let header ← encrypt plain
  let block ← Prog.unwrap (FixedBytes.ofBytes? 16 header)
  let tag ← egressTag fun m => m.updateHeader c block
  pure (header ++ tag.bytes)

/-- `read_header`: the announced body size. -/
def readHeader (data : Bytes) : Prog ECIESError (ECIES c) Nat := do
  let (headerBytes, macBytes) ← Prog.splitAt data 16
  let header ← Prog.unwrap (FixedBytes.ofBytes? 16 headerBytes)
  let (macBytes, _) ← Prog.splitAt macBytes 16
  let mac ← Prog.unwrap (FixedBytes.ofBytes? 16 macBytes)
  let checkMac ← ingressTag fun m => m.updateHeader c header
  if checkMac ≠ mac then Prog.fail .tagCheckFailed
  else
    let plain ← decrypt header.bytes
    let size := ofBe (plain.take 3)
    modify fun s => { s with bodySize := some size }
    pure size

/-- `body_len`: the padded body and its tag. -/
def bodyLen : Prog ECIESError (ECIES c) Nat := do
  let s ← get
  let len ← Prog.unwrap s.bodySize
  pure (paddedLen len + 16)

/-- `write_body`: the bytes appended to the output. -/
def writeBody (data : Bytes) : Prog ECIESError (ECIES c) Bytes := do
  let padded := data ++ List.replicate (paddedLen data.length - data.length) 0
  let encrypted ← encrypt padded
  let tag ← egressTag fun m => m.updateBody c encrypted
  pure (encrypted ++ tag.bytes)

/-- `read_body`: the announced bytes of the decrypted body. -/
def readBody (data : Bytes) : Prog ECIESError (ECIES c) Bytes := do
  let bodyEnd ← Prog.sub data.length 16
  let (body, macBytes) ← Prog.splitAt data bodyEnd
  let mac ← Prog.unwrap (FixedBytes.ofBytes? 16 macBytes)
  let checkMac ← ingressTag fun m => m.updateBody c body
  if checkMac ≠ mac then Prog.fail .tagCheckFailed
  else
    let s ← get
    let size ← Prog.unwrap s.bodySize
    modify fun s => { s with bodySize := none }
    let ret ← decrypt body
    let (ret, _) ← Prog.splitAt ret size
    pure ret

end ECIES

end EthereumSentry
