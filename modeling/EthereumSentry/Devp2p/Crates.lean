import EthereumSentry.Lib.Prog
import EthereumSentry.Lib.Rlp

/-!
# The libraries under the transport

The transport calls third-party crates for its cryptography (`secp256k1`, `sha2`, `sha3`, `hmac`, `aes`, `aes-ctr`),
for RLP (`rlp`), for compression (`snap`) and for hex text in errors (`hex`). They are parameters of the model: `Crates`
holds one function for each entry point that the code calls, and the `…Laws` structures state what the code relies on.
-/

set_option autoImplicit false

namespace EthereumSentry

/-- `types::PeerId`. -/
abbrev PeerId : Type := H512

/-- `secp256k1::Error`, as far as it is told apart. -/
inductive SecpError where
  | invalidPublicKey
  | invalidRecoveryId
  | invalidSignature
  deriving DecidableEq, Repr

/-- `snap::Error`. -/
inductive SnapError where
  | tooBig
  | bufferTooSmall
  | corrupt
  deriving DecidableEq, Repr

/-- The entry points of the crates that the transport calls. -/
structure Crates where
  SecretKey : Type
  PublicKey : Type
  RecoveryId : Type
  Signature : Type
  /-- `PublicKey::from_secret_key`. -/
  fromSecretKey : SecretKey → PublicKey
  /-- `PublicKey::serialize_uncompressed`. -/
  serializeUncompressed : PublicKey → FixedBytes 65
  /-- `PublicKey::from_slice`. -/
  fromSlice : Bytes → Except SecpError PublicKey
  /-- The first coordinate of the shared point: `SharedSecret::new_with_hash(.., |x, _| x)`. -/
  sharedX : PublicKey → SecretKey → H256
  /-- `sign_recoverable`, then `serialize_compact`. -/
  signRecoverable : H256 → SecretKey → RecoveryId × H512
  /-- `RecoveryId::to_i32`, as a byte. -/
  recoveryIdToByte : RecoveryId → UInt8
  /-- `RecoveryId::from_i32` of a byte. -/
  recoveryIdFromByte : UInt8 → Except SecpError RecoveryId
  /-- `RecoverableSignature::from_compact`. -/
  fromCompact : Bytes → RecoveryId → Except SecpError Signature
  /-- `Secp256k1::recover`. -/
  recover : H256 → Signature → Except SecpError PublicKey
  keccak256 : Bytes → H256
  sha256 : Bytes → H256
  /-- HMAC-SHA256 of a message under a key of any length. -/
  hmacSha256 : Bytes → Bytes → H256
  /-- The keystream of AES-128 in counter mode, by position. -/
  aes128Ctr : H128 → H128 → Nat → UInt8
  /-- The keystream of AES-256 in counter mode, by position. -/
  aes256Ctr : H256 → H128 → Nat → UInt8
  /-- One block of AES-256, as ECB without padding encrypts it. -/
  aes256Block : H256 → H128 → H128
  rlp : Rlp.Codec
  /-- `snap::raw::max_compress_len`. -/
  maxCompressLen : Nat → Nat
  /-- `snap::raw::Encoder::compress` into a buffer of the given length. -/
  compress : Bytes → Nat → Except SnapError Bytes
  /-- `snap::raw::decompress_len`. -/
  decompressLen : Bytes → Except SnapError Nat
  /-- `snap::raw::Decoder::decompress_vec`. -/
  decompressVec : Bytes → Except SnapError Bytes
  /-- `hex::encode`. -/
  hexEncode : Bytes → String

namespace Crates

variable (c : Crates)

/-- What the handshake relies on in `secp256k1`: keys are read back, ECDH is symmetric, and recovery inverts
signing. -/
structure SecpLaws : Prop where
  /-- The uncompressed form starts with the byte `4`. -/
  serialize_head : ∀ pk, (c.serializeUncompressed pk).bytes.head? = some 4
  fromSlice_serialize : ∀ pk, c.fromSlice (c.serializeUncompressed pk).bytes = .ok pk
  sharedX_comm : ∀ a b, c.sharedX (c.fromSecretKey a) b = c.sharedX (c.fromSecretKey b) a
  recoveryId_byte : ∀ r, c.recoveryIdFromByte (c.recoveryIdToByte r) = .ok r
  recover_sign : ∀ msg sk, ∃ sig,
    c.fromCompact (c.signRecoverable msg sk).2.bytes (c.signRecoverable msg sk).1 = .ok sig ∧
      c.recover msg sig = .ok (c.fromSecretKey sk)

/-- What the message layer relies on in `snap`: a buffer of the announced length is enough for inputs below `2 ^ 31`
bytes, and decompression undoes compression. -/
structure SnapLaws : Prop where
  compress_ok : ∀ data, data.length < 2 ^ 31 → ∃ z, c.compress data (c.maxCompressLen data.length) = .ok z
  decompressLen_compress : ∀ data n z, c.compress data n = .ok z → c.decompressLen z = .ok data.length
  decompressVec_compress : ∀ data n z, c.compress data n = .ok z → c.decompressVec z = .ok data

end Crates

end EthereumSentry
