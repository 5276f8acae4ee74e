import EthereumSentry.Lib.Crypto
import EthereumSentry.Lib.Hex
import EthereumSentry.Devp2p.Crates

/-!
# A software instance of the libraries

`Software.crates` is an instance of `Crates` that computes what the crates compute on a set of example connections:
hashes, ciphers and RLP are the standard ones; the keys are the secret keys `1`, …, `6`, with their public keys,
their shared points and their signatures of the examples tabulated; a byte string is compressed to one literal, as it
is when it is short. It satisfies the laws (`secpLaws`, `snapLaws`).
-/

set_option autoImplicit false

namespace EthereumSentry

namespace Software

/-! ## `secp256k1` -/

/-- The secret keys `1`, …, `6`, and the public keys that they have. -/
abbrev Key : Type := Fin 6

def publicKeys : List Nat := [
    0x0479be667ef9dcbbac55a06295ce870b07029bfcdb2dce28d959f2815b16f81798483ada7726a3c4655da4fbfc0e1108a8fd17b448a68554199c47d08ffb10d4b8,
    0x04c6047f9441ed7d6d3045406e95c07cd85c778e4b8cef3ca7abac09b95c709ee51ae168fea63dc339a3c58419466ceaeef7f632653266d0e1236431a950cfe52a,
    0x04f9308a019258c31049344f85f89d5229b531c845836f99b08601f113bce036f9388f7b0f632de8140fe337e62a37f3566500a99934c2231b6cb9fd7584b8e672,
    0x04e493dbf1c10d80f3581e4904930b1404cc6c13900ee0758474fa94abe8c4cd1351ed993ea0d455b75642e2098ea51448d967ae33bfbdfe40cfe97bdc47739922,
    0x042f8bde4d1a07209355b4a7250a5c5128e88b84bddc619ab7cba8d569b240efe4d8ac222636e5e3d6d4dba9dda6c9c426f788271bab0d6840dca87d3aa6ac62d6,
    0x04fff97bd5755eeea420453a14355235d382f6472f8568a18b2f057a1460297556ae12777aacfbb620f3be96017f45c560de80f0f6518fe4a03c870c36b075f297]

/-- The first coordinates of the multiples of the generator that the keys share. -/
def sharedPoints : List (Nat × Nat) := [
    (1, 0x79be667ef9dcbbac55a06295ce870b07029bfcdb2dce28d959f2815b16f81798),
    (2, 0xc6047f9441ed7d6d3045406e95c07cd85c778e4b8cef3ca7abac09b95c709ee5),
    (3, 0xf9308a019258c31049344f85f89d5229b531c845836f99b08601f113bce036f9),
    (4, 0xe493dbf1c10d80f3581e4904930b1404cc6c13900ee0758474fa94abe8c4cd13),
    (5, 0x2f8bde4d1a07209355b4a7250a5c5128e88b84bddc619ab7cba8d569b240efe4),
    (6, 0xfff97bd5755eeea420453a14355235d382f6472f8568a18b2f057a1460297556),
    (8, 0x2f01e5e15cca351daff3843fb70f3c2f0a1bdd05e5af888a67784ef3e10a2a01),
    (9, 0xacd484e2f0c7f65309ad178a9f559abde09796974c57e714c35f110dfc27ccbe),
    (10, 0xa0434d9e47f3c86235477c7b1ae6ae5d3442d49b1943c2b752a68e2a47e247c7),
    (12, 0xd01115d548e7561b15c38f004d734633687cf4419620095bc5b0f47070afe85a),
    (15, 0xd7924d4f7d43ea965a465ae3095ff41131e5946f3c85f79e44adbcf8e27e080e),
    (16, 0xe60fce93b59e9ec53011aabc21c23e97b2a31369b87a5ae9c44ee89e2a6dec0a),
    (18, 0x5601570cb47f238d2b0286db4a990fa0f3ba28d1a319f5e7cf55c2a2444da7cc),
    (20, 0x4ce119c96e2fa357200b559b2f7dd5a5f02d5290aff74b03f3e471b273211c97),
    (24, 0xfe72c435413d33d48ac09c9161ba8b09683215439d62b7940502bda8b202e6ce),
    (25, 0x9248279b09b4d68dab21a9b066edda83263c3d84e09572e269ca0cd7f5453714),
    (30, 0x6d2b085e9e382ed10b69fc311a03f8641ccfff21574de0927513a49d9a688a00),
    (36, 0xe0392cfa338aaf2f0b56c563e3e5e67a5d5fefe3388f85d90c899da20f0198f9)]

def serialize (k : Key) : FixedBytes 65 := .ofNat 65 (publicKeys.getD k 0)

def fromSlice (b : Bytes) : Except SecpError Key :=
  match (List.finRange 6).find? fun k => (serialize k).bytes = b with
  | some k => .ok k
  | none => .error .invalidPublicKey

def sharedX (pk sk : Key) : H256 := .ofNat 32 ((sharedPoints.lookup ((pk.1 + 1) * (sk.1 + 1))).getD 0)

/-- The signatures of the example handshake, where the message is the nonce `0x11…11`, exclusive or the point shared by
the keys `1` and `2`, and of the example datagrams. -/
def signatures : List ((H256 × Key) × (Fin 4 × H512)) := [
    ((.ofNat 32 0xd7156e8550fc6c7c2154517f84d16dc94d669f5a9dfe2db6babd18a84d618ff4, 2),
      1, .ofNat 64
      0xd7e36a71181a56758bfa8c5ad1a05e6c806a8e9a1c9c2f474314a377d747387978236ada4642dbf4997a3f9d8fdf34c1bdf4c4495ac4439c160aec738c9fd764),
    ((.ofNat 32 0x5997f185d591cc86d83308520a21deddfe08f4d4896dd0f14d5d13accf83326a, 2),
      0, .ofNat 64
      0x420ea44cb57d896fd980d9211b49cb489e925999fe1cfbbe87562ba57733511c2a7bc66b987db07a7b908e8bd6a26f16277c323f4d08f6978445eada1d9daa28),
    ((.ofNat 32 0x6ee9e5281ab80a14e95a4fd735aa7fd93ac67bcd938f3fd4e03a41410d23c7af, 2),
      1, .ofNat 64
      0xbd0ad18d367511d1cdf3861dfc9b3e81f825660b126ce119d949b3cba92f98a31ce0aaac3b8872b6996cf4141ffda46033c4c30f5cd8a72ff7c8fbe94fb2bfa3),
    ((.ofNat 32 0x2f906b942511865cffa5a8460a05c07a45db2cfc3796140d83146827484aa3fd, 2),
      0, .ofNat 64
      0x53fc9ae70144b2eef20963ab0d99a1be7d57a9853e3ecaa016b591867d4f52285f14fcc97bce962c306d3cdd224b46f0ca484e2f4beb5f4771cea1927f467c95),
    ((.ofNat 32 0xf166038ffbad9035d31f74b02c31a504a71012e0af2ec194215ef4a458afaeba, 2),
      0, .ofNat 64
      0x4091c8422ea7a678282b883f95e88ff1473891cfe9cf497bb58381ee042ce9a042704d28559d06d0b122bb941b33e90196ca49f9da9abe980696c075553b7e7f),
    ((.ofNat 32 0x6ee9e5281ab80a14e95a4fd735aa7fd93ac67bcd938f3fd4e03a41410d23c7af, 1),
      1, .ofNat 64
      0x99244a7ee60209788e9fe995dbeb2f17f05da5abe648150e141feda05e8b406f634b8bfab8e83b902549adf6a69d31da591692170b0365811200cb7b6f042451),
    ((.ofNat 32 0xa2fdcc98daf6d2c88c0c5677faa4d1707d5932a178f8d72088c18ed7da1f3807, 1),
      0, .ofNat 64
      0x5f171ddb8dcb7d3d565507a0c1ab9c055872e5fdec6b3316a3039a1acafbfede2b782510eee936e6bbfda69a174b21ba885f62f1c274bac5542d904ed5d8bec9),
    ((.ofNat 32 0x6ee9e5281ab80a14e95a4fd735aa7fd93ac67bcd938f3fd4e03a41410d23c7af, 0),
      1, .ofNat 64
      0x71f6cf5f7aad1a82cff6cab11d07a25386d6377bb9d74a7b5f412f4d02baa8c2485e06708043b96ac2a5295d57310047dd815a75ed8ed315dfd09865900a1942),
    ((.ofNat 32 0xffd196229f698d35f45851d4a4972728d42235244887d45ff21850ab4f2bfd0f, 1),
      0, .ofNat 64
      0xf578292d51a03b5bd577fa7ed783378308a550e237fbf0750086ed7c6a8d01677d52ce82e08e4a64600d40c69029138db3623e8a3e2dd6a1ce94844c7e73352e),
    ((.ofNat 32 0xffd196229f698d35f45851d4a4972728d42235244887d45ff21850ab4f2bfd0f, 2),
      1, .ofNat 64
      0xffa02f93f171957ad60e4748bab184226aee401a4e73649cfc1b1e1598ecd68c4b8f16315e10a76e37358c35f45733738b57b0960ede00ff4f0cd88aa7280234),
    ((.ofNat 32 0xd7569dc268652475aa88749f5cc9b6017bcbd2ce6eae70bec4b3962735004a6d, 0),
      0, .ofNat 64
      0xbbf615ff7c7f89bf735185e08de6eea71aca64411b2c99c49a2e818b6ee22a050e7acd6a3399264b929227ecf381aa6831ce2bb10609c17399740e08b7d4220c),
    ((.ofNat 32 0xa768e64f5831defa1866a1fd659f18b12e4dedff7916d3357787a9433e9f19c4, 0),
      1, .ofNat 64
      0x05dc37894190f1a48a8bd26fa3a29b8db11223af14bab07b259cbf776f1f5fa56bbd1035d2eedb29a2d0100632b1d08c0003839a404dea19b40ccae30a76be2a),
    ((.ofNat 32 0xcace66b6a82a5dc496a5b21a4032eb58baf223ea6f142a01593a5d105d5ee150, 0),
      0, .ofNat 64
      0x4493479799bcfaa4e32368962dd307ae503a823edf90e6c63696b4efcaa3526b1f9e29d7557cb90e6ef4386ffb50964fb996bc854ea775bba73514bcc904f9e3)]

/-- Every other message is signed by naming the key. -/
def sign (msg : H256) (sk : Key) : Fin 4 × H512 :=
  (signatures.lookup (msg, sk)).getD (0, ⟨msg.bytes ++ be 32 sk.1, by simp⟩)

def recIdFromByte (b : UInt8) : Except SecpError (Fin 4) :=
  if h : b.toNat < 4 then .ok ⟨b.toNat, h⟩ else .error .invalidRecoveryId

def fromCompact (b : Bytes) (r : Fin 4) : Except SecpError (Fin 4 × H512) :=
  match FixedBytes.ofBytes? 64 b with
  | some h => .ok (r, h)
  | none => .error .invalidSignature

def recover (msg : H256) (sig : Fin 4 × H512) : Except SecpError Key :=
  match (List.finRange 6).find? fun k => sign msg k = sig with
  | some k => .ok k
  | none => .error .invalidSignature

/-! ## `snap` -/

/-- A length, seven bits a byte, least significant first. -/
def varint : Nat → Nat → Bytes
  | 0, _ => []
  | fuel + 1, n => if n < 128 then [UInt8.ofNat n] else UInt8.ofNat (n % 128 + 128) :: varint fuel (n / 128)

/-- A length off the front. -/
def readVarint : Nat → Bytes → Option (Nat × Bytes)
  | 0, _ => none
  | _ + 1, [] => none
  | fuel + 1, x :: b =>
    if x.toNat < 128 then some (x.toNat, b)
    else (readVarint fuel b).map fun (n, rest) => (x.toNat % 128 + 128 * n, rest)

def maxCompressLen (n : Nat) : Nat := if 32 + n + n / 6 < 2 ^ 32 then 32 + n + n / 6 else 0

/-- A literal: its length in the tag up to 60, else in four bytes. -/
def literal (data : Bytes) : Bytes :=
  if data = [] then []
  else if data.length ≤ 60 then UInt8.ofNat (4 * (data.length - 1)) :: data
  else 252 :: (be 4 (data.length - 1)).reverse ++ data

def compress (data : Bytes) (cap : Nat) : Except SnapError Bytes :=
  if maxCompressLen data.length = 0 then .error .tooBig
  else if cap < maxCompressLen data.length then .error .bufferTooSmall
  else .ok (varint 5 data.length ++ literal data)

def decompressLen (b : Bytes) : Except SnapError Nat :=
  if b = [] then .ok 0
  else
    match readVarint 5 b with
    | some (n, _) => .ok n
    | none => .error .corrupt

/-- A literal off the front. -/
def readLiteral : Bytes → Option Bytes
  | [] => some []
  | tag :: b =>
    if tag.toNat % 4 ≠ 0 then none
    else if tag.toNat / 4 < 60 then if b.length = tag.toNat / 4 + 1 then some b else none
    else
      let k := tag.toNat / 4 - 59
      if b.length = k + ofBe (b.take k).reverse + 1 then some (b.drop k) else none

def decompressVec (b : Bytes) : Except SnapError Bytes :=
  match readVarint 5 b with
  | some (n, rest) =>
    match readLiteral rest with
    | some data => if data.length = n then .ok data else .error .corrupt
    | none => .error .corrupt
  | none => .error .corrupt

/-- The software instance. -/
def crates : Crates where
  SecretKey := Key
  PublicKey := Key
  RecoveryId := Fin 4
  Signature := Fin 4 × H512
  fromSecretKey k := k
  serializeUncompressed := serialize
  fromSlice := fromSlice
  sharedX := sharedX
  signRecoverable := sign
  recoveryIdToByte r := UInt8.ofNat r.1
  recoveryIdFromByte := recIdFromByte
  fromCompact := fromCompact
  recover := recover
  keccak256 := Keccak.hash
  sha256 := Sha256.hash
  hmacSha256 := Sha256.hmac
  aes128Ctr key iv := Aes.ctr key.bytes iv
  aes256Ctr key iv := Aes.ctr key.bytes iv
  aes256Block key block := Aes.encryptBlock key.bytes block
  rlp := Rlp.standard
  maxCompressLen := maxCompressLen
  compress := compress
  decompressLen := decompressLen
  decompressVec := decompressVec
  hexEncode := Hex.encode

/-- The static key of an example client. -/
def clientKey : crates.SecretKey := (0 : Key)

/-- The static key of an example server. -/
def serverKey : crates.SecretKey := (1 : Key)

/-- The ephemeral key of an example client. -/
def clientEphemeralKey : crates.SecretKey := (2 : Key)

/-- The ephemeral key of an example server. -/
def serverEphemeralKey : crates.SecretKey := (3 : Key)

/-- The key drawn for an example auth message. -/
def authKey : crates.SecretKey := (4 : Key)

/-- The key drawn for an example ack message. -/
def ackKey : crates.SecretKey := (5 : Key)

/-! ## The laws -/

/-- Searching for a key that is the only one with a property. -/
theorem find_key {p : Key → Bool} {k : Key} (hk : p k = true) (hu : ∀ j, p j = true → j = k) :
    (List.finRange 6).find? p = some k := by
  cases h : (List.finRange 6).find? p with
  | none => exact absurd hk (by simpa using List.find?_eq_none.1 h k (List.mem_finRange k))
  | some j => rw [hu j (List.find?_some h)]

theorem serialize_injective : ∀ a b : Key, (serialize a).bytes = (serialize b).bytes → a = b := by
  decide +kernel

/-- No two signatures of the table are the same. -/
theorem signatures_injective : ∀ x ∈ signatures, ∀ y ∈ signatures, x.2 = y.2 → x = y := by
  decide +kernel

/-- The tabulated signatures do not look like those that name a key. -/
theorem signatures_ne : ∀ x ∈ signatures, ∀ k : Key, x.2.2.bytes ≠ x.1.1.bytes ++ be 32 k.1 := by
  decide +kernel

theorem be_key_injective : ∀ a b : Key, be 32 a.1 = be 32 b.1 → a = b := by
  decide +kernel

/-- A signature is tabulated, or it names the key. -/
theorem sign_cases (msg : H256) (sk : Key) :
    ((msg, sk), sign msg sk) ∈ signatures ∨ sign msg sk = (0, ⟨msg.bytes ++ be 32 sk.1, by simp⟩) := by
  unfold sign
  cases h : signatures.lookup (msg, sk) with
  | none => exact .inr rfl
  | some sig =>
    obtain ⟨before, after, hsignatures, -⟩ := List.lookup_eq_some_iff.1 h
    exact .inl (hsignatures ▸ List.mem_append_right _ List.mem_cons_self)

/-- A signature determines the key. -/
theorem sign_injective {msg : H256} {a b : Key} (h : sign msg a = sign msg b) : a = b := by
  rcases sign_cases msg a with ha | ha <;> rcases sign_cases msg b with hb | hb
  · exact (Prod.mk.inj (Prod.mk.inj (signatures_injective _ ha _ hb h)).1).2
  · exact absurd (congrArg (fun sig => sig.2.bytes) (h.trans hb)) (signatures_ne _ ha b)
  · exact absurd (congrArg (fun sig => sig.2.bytes) (h.symm.trans ha)) (signatures_ne _ hb a)
  · have := congrArg (fun sig => sig.2.bytes) (ha.symm.trans (h.trans hb))
    exact be_key_injective a b (List.append_cancel_left this)

/-- **The laws of `secp256k1`** hold of the example keys. -/
theorem secpLaws : crates.SecpLaws where
  serialize_head := show ∀ k : Key, (serialize k).bytes.head? = some 4 by decide +kernel
  fromSlice_serialize k := by
    have : (List.finRange 6).find? (fun j => (serialize j).bytes = (serialize k).bytes) = some k :=
      find_key (by simp) fun j hj => serialize_injective j k (by simpa using hj)
    simp only [crates, fromSlice, this]
  sharedX_comm a b := by
    simp only [crates, sharedX, Nat.mul_comm]
  recoveryId_byte := show ∀ r : Fin 4, recIdFromByte (UInt8.ofNat r.1) = .ok r by decide
  recover_sign msg sk := by
    refine ⟨sign msg sk, ?_, ?_⟩
    · simp only [crates, fromCompact, FixedBytes.ofBytes?_bytes]
    · have : (List.finRange 6).find? (fun j => sign msg j = sign msg sk) = some sk :=
        find_key (by simp) fun j hj => sign_injective (by simpa using hj)
      simp only [crates, recover, this]

/-- **A length round-trips** through its digits. -/
theorem readVarint_varint : ∀ (fuel n : Nat) (rest : Bytes), n < 128 ^ (fuel + 1) →
    readVarint (fuel + 1) (varint (fuel + 1) n ++ rest) = some (n, rest)
  | 0, n, rest, h => by
    have hn : n < 128 := by simpa using h
    have ht : n % 256 = n := by omega
    simp [varint, readVarint, hn, ht]
  | fuel + 1, n, rest, h => by
    by_cases hn : n < 128
    · have ht : n % 256 = n := by omega
      simp [varint, readVarint, hn, ht]
    · have hq : n / 128 < 128 ^ (fuel + 1) := by
        rw [Nat.div_lt_iff_lt_mul (by omega)]
        simpa [Nat.pow_succ] using h
      have hx : (UInt8.ofNat (n % 128 + 128)).toNat = n % 128 + 128 := by
        rw [UInt8.toNat_ofNat']; omega
      rw [varint, if_neg hn, List.cons_append, readVarint, hx, if_neg (by omega),
        readVarint_varint fuel (n / 128) rest hq]
      simp only [Option.map_some, Option.some.injEq, Prod.mk.injEq, and_true]
      omega

/-- **A literal round-trips.** -/
theorem readLiteral_literal {data : Bytes} (h : data.length < 2 ^ 32) : readLiteral (literal data) = some data := by
  cases data with
  | nil => rfl
  | cons x l =>
    rw [literal, if_neg (List.cons_ne_nil x l)]
    by_cases hs : (x :: l).length ≤ 60
    · have ht : (UInt8.ofNat (4 * ((x :: l).length - 1))).toNat = 4 * ((x :: l).length - 1) := by
        rw [UInt8.toNat_ofNat']; omega
      rw [if_pos hs, readLiteral, ht, if_neg (by omega), if_pos (by omega), if_pos (by rw [List.length_cons]; omega)]
    · have hlen : ofBe (be 4 ((x :: l).length - 1)) = (x :: l).length - 1 := ofBe_be (by omega)
      have htake : ((be 4 ((x :: l).length - 1)).reverse ++ x :: l).take 4 = (be 4 ((x :: l).length - 1)).reverse :=
        List.take_left' (by simp)
      have hdrop : ((be 4 ((x :: l).length - 1)).reverse ++ x :: l).drop 4 = x :: l := List.drop_left' (by simp)
      rw [if_neg hs, List.cons_append, readLiteral, show (252 : UInt8).toNat = 252 from rfl, if_neg (by decide),
        if_neg (by decide)]
      simp only [Nat.reduceDiv, Nat.reduceSub, htake, hdrop, List.reverse_reverse, hlen]
      rw [if_pos]
      rw [List.length_append, List.length_reverse, length_be, List.length_cons]
      omega

theorem length_lt_of_compress {data z : Bytes} {cap : Nat} (h : compress data cap = .ok z) :
    data.length < 2 ^ 32 ∧ z = varint 5 data.length ++ literal data := by
  unfold compress at h
  split at h
  · cases h
  · split at h
    · cases h
    · rename_i h0 _
      cases h
      refine ⟨?_, rfl⟩
      unfold maxCompressLen at h0
      split at h0
      · omega
      · exact absurd rfl h0

/-- **The laws of `snap`** hold of compression to a literal. -/
theorem snapLaws : crates.SnapLaws where
  compress_ok data h := by
    refine ⟨varint 5 data.length ++ literal data, ?_⟩
    have hm : maxCompressLen data.length ≠ 0 := by
      rw [maxCompressLen, if_pos (by omega)]
      omega
    simp only [crates, compress, if_neg hm, Nat.lt_irrefl, ↓reduceIte]
  decompressLen_compress data n z h := by
    obtain ⟨hl, rfl⟩ := length_lt_of_compress h
    have hr := readVarint_varint 4 data.length (literal data) (by omega)
    have hne : varint 5 data.length ++ literal data ≠ [] := fun he => by
      rw [he] at hr
      cases hr
    simp only [crates, decompressLen, if_neg hne, hr]
  decompressVec_compress data n z h := by
    obtain ⟨hl, rfl⟩ := length_lt_of_compress h
    have hr := readVarint_varint 4 data.length (literal data) (by omega)
    simp only [crates, decompressVec, hr, readLiteral_literal hl, ↓reduceIte]

end Software

end EthereumSentry
