import EthereumSentry.Devp2p.Ecies.Proto
import EthereumSentry.Devp2p.Software

/-!
# The handshake agrees on a session

The client writes an auth message, the server reads it and writes an ack message, and the client reads that. A sealed
message is opened by the holder of the other key (`run_decryptMessage`), so each side learns the nonce and the
ephemeral key of the other, and both derive the same secrets (`handshake_agrees`): what one side writes with, the
other side reads with.
-/

set_option autoImplicit false

namespace EthereumSentry

variable {c : Crates}

/-! ## Keys as identities -/

theorem four_cons_pk2id (h : c.SecpLaws) (pk : c.PublicKey) :
    4 :: (pk2id pk).bytes = (c.serializeUncompressed pk).bytes := by
  have hh := h.serialize_head pk
  simp only [pk2id, FixedBytes.drop]
  cases hb : (c.serializeUncompressed pk).bytes with
  | nil => rw [hb] at hh; cases hh
  | cons x l =>
    rw [hb] at hh
    cases hh
    rfl

/-- A key is read back from its identity. -/
theorem id2pk_pk2id (h : c.SecpLaws) (pk : c.PublicKey) : id2pk (pk2id pk) = .ok pk := by
  rw [id2pk, four_cons_pk2id h, h.fromSlice_serialize]

namespace ECIES

/-! ## Sealed messages -/

/-- The output of `encrypt_message` for a receiver with the given key. -/
def sealMessage (rng : EncryptRng c) (pk : c.PublicKey) (data : Bytes) : Bytes :=
  let x := ecdhX pk rng.secretKey
  let encrypted := xorStream (c.aes128Ctr (encKey c x) rng.iv) 0 data
  let tag := hmacSha256 c (macKey c x).bytes [rng.iv.bytes, encrypted] (be 2 (65 + 16 + data.length + 32))
  (c.serializeUncompressed (c.fromSecretKey rng.secretKey)).bytes ++ rng.iv.bytes ++ encrypted ++ tag.bytes

@[simp] theorem length_sealMessage (rng : EncryptRng c) (pk : c.PublicKey) (data : Bytes) :
    (sealMessage rng pk data).length = 65 + 16 + data.length + 32 := by
  simp [sealMessage]
  omega

/-- The sealed message with its length in front. -/
def packet (rng : EncryptRng c) (pk : c.PublicKey) (data : Bytes) : Bytes :=
  be 2 (65 + 16 + data.length + 32) ++ sealMessage rng pk data

theorem run_encryptMessage {rng : EncryptRng c} {s : ECIES c} {pk : c.PublicKey} {data : Bytes}
    (hpk : s.remotePublicKey = some pk) (hlen : 65 + 16 + data.length + 32 < 2 ^ 16) :
    (encryptMessage rng data).run s = .ok (sealMessage rng pk data) s := by
  unfold encryptMessage
  rw [Prog.run_bind_ok (EStateM.run_get s), hpk, Prog.run_bind_ok (Prog.run_unwrap_some _ s)]
  simp only [hlen, ↓reduceIte, pure_bind]
  rfl

theorem run_withLength {rng : EncryptRng c} {s : ECIES c} {pk : c.PublicKey} {data : Bytes}
    (hlen : 65 + 16 + data.length + 32 < 2 ^ 16) :
    (withLength (sealMessage rng pk data)).run s = .ok (packet rng pk data) s := by
  unfold withLength packet
  rw [length_sealMessage, if_pos hlen]
  rfl

/-- **A sealed message is opened** with the secret key of its receiver. -/
theorem run_decryptMessage (h : c.SecpLaws) (rng : EncryptRng c) (s : ECIES c) (data : Bytes) :
    (decryptMessage (packet rng (c.fromSecretKey s.secretKey) data)).run s = .ok data s := by
  have hx : ecdhX (c.fromSecretKey rng.secretKey) s.secretKey = ecdhX (c.fromSecretKey s.secretKey) rng.secretKey :=
    h.sharedX_comm _ _
  set x := ecdhX (c.fromSecretKey s.secretKey) rng.secretKey with hxdef
  set encrypted := xorStream (c.aes128Ctr (encKey c x) rng.iv) 0 data with henc
  set tag := hmacSha256 c (macKey c x).bytes [rng.iv.bytes, encrypted] (be 2 (65 + 16 + data.length + 32)) with htag
  have hp : packet rng (c.fromSecretKey s.secretKey) data = be 2 (65 + 16 + data.length + 32) ++
      ((c.serializeUncompressed (c.fromSecretKey rng.secretKey)).bytes ++ (rng.iv.bytes ++ encrypted ++ tag.bytes)) := by
    simp only [packet, sealMessage, ← hxdef, ← henc, ← htag, List.append_assoc]
  rw [hp]
  unfold decryptMessage
  rw [Prog.run_bind_ok (Prog.run_splitAt_append (length_be _ _) s)]
  dsimp only
  rw [Prog.run_bind_ok (Prog.run_splitAt_append (FixedBytes.length_bytes _) s)]
  dsimp only
  rw [h.fromSlice_serialize, Prog.run_bind_ok (Prog.run_ofExcept_ok _ _ s),
    Prog.run_bind_ok (Prog.run_sub (by simp; omega) s),
    Prog.run_bind_ok (Prog.run_splitAt_append (by simp; omega) s)]
  dsimp only
  rw [Prog.run_bind_ok (Prog.run_splitAt_append (FixedBytes.length_bytes _) s)]
  dsimp only
  rw [FixedBytes.ofBytes?_bytes, FixedBytes.ofBytes?_bytes, Prog.run_bind_ok (Prog.run_unwrap_some _ s),
    Prog.run_bind_ok (Prog.run_unwrap_some _ s), Prog.run_bind_ok (EStateM.run_get s), hx]
  rw [← htag, if_neg (not_not.2 rfl), henc, xorStream_xorStream]
  rfl

/-! ## The auth message -/

/-- The items of an auth message to a receiver with the given key. -/
def authItems (s : ECIES c) (pk : c.PublicKey) : List Bytes :=
  let sig := c.signRecoverable ((ecdhX pk s.secretKey).xor s.nonce) s.ephemeralSecretKey
  [c.rlp.encodeBytes (sig.2.bytes ++ [c.recoveryIdToByte sig.1]), c.rlp.encodeBytes (pk2id s.publicKey).bytes,
    c.rlp.encodeBytes s.nonce.bytes, c.rlp.encodeUint eciesProtocolVersion]

/-- The output of `create_auth_unencrypted`. -/
def authPlain (rng : AuthRng c) (s : ECIES c) (pk : c.PublicKey) : Bytes :=
  c.rlp.encodeList (authItems s pk) ++ List.replicate rng.padding 0

theorem isItem_authItems (s : ECIES c) (pk : c.PublicKey) : ∀ x ∈ authItems s pk, c.rlp.IsItem x := by
  simp only [authItems, List.mem_cons, List.not_mem_nil, or_false, forall_eq_or_imp, forall_eq]
  exact ⟨.bytes (by simp), .bytes (by simp), .bytes (by simp), .uint (by decide)⟩

/-- An auth message fits the length in front of it. -/
theorem length_authPlain (h : c.rlp.Lawful) (rng : AuthRng c) (s : ECIES c) (pk : c.PublicKey) :
    65 + 16 + (authPlain rng s pk).length + 32 < 2 ^ 16 := by
  have h₁ : (authItems s pk).flatten.length ≤ 74 + 73 + 41 + 9 := by
    have hs := h.length_bytes ((c.signRecoverable ((ecdhX pk s.secretKey).xor s.nonce) s.ephemeralSecretKey).2.bytes ++
      [c.recoveryIdToByte (c.signRecoverable ((ecdhX pk s.secretKey).xor s.nonce) s.ephemeralSecretKey).1]) (by simp)
    have hi := h.length_bytes (pk2id s.publicKey).bytes (by simp)
    have hn := h.length_bytes s.nonce.bytes (by simp)
    have hv := h.length_uint eciesProtocolVersion (by decide)
    simp only [List.length_append, FixedBytes.length_bytes, List.length_singleton] at hs hi hn
    simp only [authItems, List.flatten_cons, List.flatten_nil, List.append_nil, List.length_append]
    omega
  have h₂ := h.length_list (authItems s pk) (by omega)
  have := rng.padding_le
  simp only [authPlain, List.length_append, List.length_replicate]
  omega

theorem run_createAuthUnencrypted {rng : AuthRng c} {s : ECIES c} {pk : c.PublicKey}
    (hpk : s.remotePublicKey = some pk) : (createAuthUnencrypted rng).run s = .ok (authPlain rng s pk) s := by
  unfold createAuthUnencrypted
  rw [Prog.run_bind_ok (EStateM.run_get s), hpk, Prog.run_bind_ok (Prog.run_unwrap_some _ s)]
  rfl

/-- **`write_auth`** seals the auth message and keeps what it sends. -/
theorem run_writeAuth (h : c.rlp.Lawful) (rng : AuthRng c) {s : ECIES c} {pk : c.PublicKey}
    (hpk : s.remotePublicKey = some pk) :
    (writeAuth rng).run s = .ok (packet rng.toEncryptRng pk (authPlain rng s pk))
      { s with initMsg := some (packet rng.toEncryptRng pk (authPlain rng s pk)) } := by
  have hlen := length_authPlain h rng s pk
  unfold writeAuth
  rw [Prog.run_bind_ok (run_createAuthUnencrypted hpk), Prog.run_bind_ok (run_encryptMessage hpk hlen),
    Prog.run_bind_ok (run_withLength hlen), Prog.run_bind_ok (EStateM.run_modify _ _)]
  rfl

/-- What the receiver of an auth message knows of its writer. -/
def learnAuth (s writer : ECIES c) : ECIES c := { s with
  remoteId := some (pk2id writer.publicKey)
  remotePublicKey := some writer.publicKey
  remoteNonce := some writer.nonce
  remoteEphemeralPublicKey := some (c.fromSecretKey writer.ephemeralSecretKey)
  ephemeralSharedSecret := some (ecdhX (c.fromSecretKey writer.ephemeralSecretKey) s.ephemeralSecretKey) }

/-- **The auth message is understood** by a receiver that shares the static secret: recovery inverts the signature. -/
theorem run_parseAuthUnencrypted (h : c.SecpLaws) (hr : c.rlp.Lawful) {rng : AuthRng c} {s writer : ECIES c}
    {pk : c.PublicKey} (hx : ecdhX writer.publicKey s.secretKey = ecdhX pk writer.secretKey) :
    (parseAuthUnencrypted (authPlain rng writer pk)).run s = .ok () (learnAuth s writer) := by
  have hitems : c.rlp.items (authPlain rng writer pk) = authItems writer pk :=
    hr.items_list _ _ (isItem_authItems writer pk) (by simp [authItems])
  obtain ⟨sig, hcompact, hrecover⟩ :=
    h.recover_sign ((ecdhX pk writer.secretKey).xor writer.nonce) writer.ephemeralSecretKey
  unfold parseAuthUnencrypted
  simp only [hitems, authItems, nextItem, pure_bind]
  rw [hr.data_bytes _ (by simp), Prog.run_bind_ok (Prog.run_ofExcept_ok _ _ s),
    if_neg (by simp), Prog.run_bind_ok (Prog.run_splitAt_append (FixedBytes.length_bytes _) s)]
  dsimp only
  rw [List.head?_cons, Prog.run_bind_ok (Prog.run_unwrap_some _ s), h.recoveryId_byte,
    Prog.run_bind_ok (Prog.run_ofExcept_ok _ _ s), hcompact, Prog.run_bind_ok (Prog.run_ofExcept_ok _ _ s),
    hr.hash_bytes 64 _ (by decide), Prog.run_bind_ok (Prog.run_ofExcept_ok _ _ s),
    Prog.run_bind_ok (EStateM.run_modify _ _), id2pk_pk2id h, Prog.run_bind_ok (Prog.run_ofExcept_ok _ _ _),
    Prog.run_bind_ok (EStateM.run_modify _ _), hr.hash_bytes 32 _ (by decide),
    Prog.run_bind_ok (Prog.run_ofExcept_ok _ _ _), Prog.run_bind_ok (EStateM.run_modify _ _),
    Prog.run_bind_ok (EStateM.run_get _)]
  dsimp only
  rw [Prog.run_bind_ok (Prog.run_unwrap_some _ _), Prog.run_bind_ok (Prog.run_unwrap_some _ _), hx, hrecover,
    Prog.run_bind_ok (Prog.run_ofExcept_ok _ _ _), Prog.run_bind_ok (EStateM.run_modify _ _),
    Prog.run_bind_ok (EStateM.run_get _)]
  dsimp only
  rw [Prog.run_bind_ok (Prog.run_unwrap_some _ _), EStateM.run_modify]
  rfl

/-- **`read_auth`** on a sealed auth message. -/
theorem run_readAuth (h : c.SecpLaws) (hr : c.rlp.Lawful) (rng : AuthRng c) {s writer : ECIES c} {pk : c.PublicKey}
    {msg : Bytes} (hmsg : msg = packet rng.toEncryptRng pk (authPlain rng writer pk))
    (hs : c.fromSecretKey s.secretKey = pk) (hw : writer.publicKey = c.fromSecretKey writer.secretKey) :
    (readAuth msg).run s = .ok () (learnAuth { s with remoteInitMsg := some msg } writer) := by
  have hd : (decryptMessage msg).run { s with remoteInitMsg := some msg } =
      .ok (authPlain rng writer pk) { s with remoteInitMsg := some msg } := by
    rw [hmsg, ← hs]
    exact run_decryptMessage h rng.toEncryptRng { s with remoteInitMsg := some _ } _
  unfold readAuth
  rw [Prog.run_bind_ok (EStateM.run_modify _ _), Prog.run_bind_ok hd]
  refine run_parseAuthUnencrypted h hr ?_
  rw [hw, ← hs]
  exact h.sharedX_comm _ _

/-! ## The secrets -/

/-- The hash of both nonces: the server's, then the client's. -/
def nonceHash (c : Crates) (server client : H256) : H256 := c.keccak256 (server.bytes ++ client.bytes)

def aesSecret (c : Crates) (ephemeral hNonce : H256) : H256 :=
  c.keccak256 (ephemeral.bytes ++ (c.keccak256 (ephemeral.bytes ++ hNonce.bytes)).bytes)

def macSecret (c : Crates) (ephemeral hNonce : H256) : H256 :=
  c.keccak256 (ephemeral.bytes ++ (aesSecret c ephemeral hNonce).bytes)

/-- The initial MAC of the direction whose reader has the nonce, and whose writer sent the handshake message. -/
def initialMac (secret nonce : H256) (msg : Bytes) : MAC :=
  ((MAC.new secret).update (secret.xor nonce).bytes).update msg

/-- The state after `setup_frame`, with the secrets derived. -/
def framed (s : ECIES c) (ephemeral hNonce remoteNonce : H256) (remoteInitMsg initMsg : Bytes) : ECIES c := { s with
  ingressAes := some (Aes256Ctr.new (aesSecret c ephemeral hNonce) (FixedBytes.zero 16))
  egressAes := some (Aes256Ctr.new (aesSecret c ephemeral hNonce) (FixedBytes.zero 16))
  ingressMac := some (initialMac (macSecret c ephemeral hNonce) s.nonce remoteInitMsg)
  egressMac := some (initialMac (macSecret c ephemeral hNonce) remoteNonce initMsg) }

theorem run_setupFrame {s : ECIES c} (incoming : Bool) {remoteNonce ephemeral : H256} {remoteInitMsg initMsg : Bytes}
    (hn : s.remoteNonce = some remoteNonce) (he : s.ephemeralSharedSecret = some ephemeral)
    (hr : s.remoteInitMsg = some remoteInitMsg) (hi : s.initMsg = some initMsg) :
    (setupFrame incoming).run s = .ok () (framed s ephemeral
      (if incoming then nonceHash c s.nonce remoteNonce else nonceHash c remoteNonce s.nonce)
      remoteNonce remoteInitMsg initMsg) := by
  unfold setupFrame
  rw [Prog.run_bind_ok (EStateM.run_get _), Prog.run_bind_ok (Prog.run_unwrap_of hn _),
    Prog.run_bind_ok (Prog.run_unwrap_of he _), Prog.run_bind_ok (EStateM.run_modify _ _),
    Prog.run_bind_ok (EStateM.run_modify _ _), Prog.run_bind_ok (Prog.run_unwrap_of hr _),
    Prog.run_bind_ok (EStateM.run_modify _ _), Prog.run_bind_ok (EStateM.run_modify _ _),
    Prog.run_bind_ok (Prog.run_unwrap_of hi _), EStateM.run_modify]
  cases incoming <;> rfl

/-! ## The ack message -/

theorem length_createAckUnencrypted (h : c.rlp.Lawful) (s : ECIES c) :
    65 + 16 + (createAckUnencrypted s).length + 32 < 2 ^ 16 := by
  have hi := h.length_bytes (pk2id s.ephemeralPublicKey).bytes (by simp)
  have hn := h.length_bytes s.nonce.bytes (by simp)
  have hv := h.length_uint eciesProtocolVersion (by decide)
  simp only [FixedBytes.length_bytes] at hi hn
  have hl := h.length_list [c.rlp.encodeBytes (pk2id s.ephemeralPublicKey).bytes, c.rlp.encodeBytes s.nonce.bytes,
    c.rlp.encodeUint eciesProtocolVersion]
  simp only [List.flatten_cons, List.flatten_nil, List.append_nil, List.length_append] at hl
  have := hl (by omega)
  unfold createAckUnencrypted
  omega

/-- The ack message of a state whose peer has the given key, sealed. -/
def ackPacket (rng : EncryptRng c) (s : ECIES c) (pk : c.PublicKey) : Bytes := packet rng pk (createAckUnencrypted s)

/-- **`write_ack`** seals the ack message, keeps what it sends, and sets up the session of a server. -/
theorem run_writeAck (h : c.rlp.Lawful) (rng : EncryptRng c) {s : ECIES c} {pk : c.PublicKey}
    {remoteNonce ephemeral : H256} {remoteInitMsg : Bytes} (hpk : s.remotePublicKey = some pk)
    (hn : s.remoteNonce = some remoteNonce) (he : s.ephemeralSharedSecret = some ephemeral)
    (hr : s.remoteInitMsg = some remoteInitMsg) :
    (writeAck rng).run s = .ok (ackPacket rng s pk)
      (framed { s with initMsg := some (ackPacket rng s pk) } ephemeral (nonceHash c s.nonce remoteNonce) remoteNonce
        remoteInitMsg (ackPacket rng s pk)) := by
  have hlen := length_createAckUnencrypted h s
  unfold writeAck
  rw [Prog.run_bind_ok (EStateM.run_get s), Prog.run_bind_ok (run_encryptMessage hpk hlen),
    Prog.run_bind_ok (run_withLength hlen), Prog.run_bind_ok (EStateM.run_modify _ _)]
  have hf := run_setupFrame (s := { s with initMsg := some (ackPacket rng s pk) }) true hn he hr rfl
  exact Prog.run_bind_ok hf _

/-- What the receiver of an ack message knows of its writer. -/
def learnAck (s writer : ECIES c) : ECIES c := { s with
  remoteNonce := some writer.nonce
  remoteEphemeralPublicKey := some writer.ephemeralPublicKey
  ephemeralSharedSecret := some (ecdhX writer.ephemeralPublicKey s.ephemeralSecretKey) }

theorem run_parseAckUnencrypted (h : c.SecpLaws) (hr : c.rlp.Lawful) {s writer : ECIES c} :
    (parseAckUnencrypted (createAckUnencrypted writer)).run s = .ok () (learnAck s writer) := by
  have hitems := hr.items_list [c.rlp.encodeBytes (pk2id writer.ephemeralPublicKey).bytes,
    c.rlp.encodeBytes writer.nonce.bytes, c.rlp.encodeUint eciesProtocolVersion] [] (by
      simp only [List.mem_cons, List.not_mem_nil, or_false, forall_eq_or_imp, forall_eq]
      exact ⟨.bytes (by simp), .bytes (by simp), .uint (by decide)⟩) (by simp)
  rw [List.append_nil] at hitems
  unfold parseAckUnencrypted
  simp only [createAckUnencrypted, hitems, nextItem, pure_bind]
  rw [hr.hash_bytes 64 _ (by decide), Prog.run_bind_ok (Prog.run_ofExcept_ok _ _ s), id2pk_pk2id h,
    Prog.run_bind_ok (Prog.run_ofExcept_ok _ _ _), Prog.run_bind_ok (EStateM.run_modify _ _),
    hr.hash_bytes 32 _ (by decide), Prog.run_bind_ok (Prog.run_ofExcept_ok _ _ _),
    Prog.run_bind_ok (EStateM.run_modify _ _), Prog.run_bind_ok (EStateM.run_get _)]
  dsimp only
  rw [Prog.run_bind_ok (Prog.run_unwrap_some _ _), EStateM.run_modify]
  rfl

/-- **`read_ack`** on a sealed ack message sets up the session of a client. -/
theorem run_readAck (h : c.SecpLaws) (hr : c.rlp.Lawful) (rng : EncryptRng c) {s writer : ECIES c} {pk : c.PublicKey}
    {msg initMsg : Bytes} (hmsg : msg = ackPacket rng writer pk) (hs : c.fromSecretKey s.secretKey = pk)
    (hi : s.initMsg = some initMsg) :
    (readAck msg).run s = .ok () (framed (learnAck { s with remoteInitMsg := some msg } writer)
      (ecdhX writer.ephemeralPublicKey s.ephemeralSecretKey) (nonceHash c writer.nonce s.nonce) writer.nonce msg
      initMsg) := by
  have hd : (decryptMessage msg).run { s with remoteInitMsg := some msg } =
      .ok (createAckUnencrypted writer) { s with remoteInitMsg := some msg } := by
    rw [hmsg, ← hs]
    exact run_decryptMessage h rng { s with remoteInitMsg := some _ } _
  unfold readAck
  rw [Prog.run_bind_ok (EStateM.run_modify _ _), Prog.run_bind_ok hd, Prog.run_bind_ok (run_parseAckUnencrypted h hr)]
  exact run_setupFrame (s := learnAck { s with remoteInitMsg := some msg } writer) false rfl rfl rfl hi

/-! ## The handshake -/

/-- One direction of a session: a cipher and a MAC. -/
structure Half where
  aes : Aes256Ctr
  mac : MAC

/-- The state writes with the half. -/
def Writes (s : ECIES c) (h : Half) : Prop := s.egressAes = some h.aes ∧ s.egressMac = some h.mac

/-- The state reads with the half. -/
def Reads (s : ECIES c) (h : Half) : Prop := s.ingressAes = some h.aes ∧ s.ingressMac = some h.mac

/-- Both directions have the secrets, and what one state writes with, the other reads with. -/
structure Agree (aesSecret macSecret : H256) (s t : ECIES c) : Prop where
  forth : ∃ h : Half, h.aes.key = aesSecret ∧ h.mac.secret = macSecret ∧ s.Writes h ∧ t.Reads h
  back : ∃ h : Half, h.aes.key = aesSecret ∧ h.mac.secret = macSecret ∧ t.Writes h ∧ s.Reads h

/-- The keys and the nonces of a client and a server, and what their messages draw. -/
structure Parties (c : Crates) where
  clientKey : c.SecretKey
  serverKey : c.SecretKey
  clientEphemeralKey : c.SecretKey
  serverEphemeralKey : c.SecretKey
  clientNonce : H256
  serverNonce : H256
  authRng : AuthRng c
  ackRng : EncryptRng c

/-- The client writes auth, the server reads it and writes ack, the client reads it: the states of both. -/
def handshake (p : Parties c) : Option (ECIES c × ECIES c) := do
  let client ← (newStaticClient p.clientKey (pk2id (c.fromSecretKey p.serverKey)) p.clientNonce
    p.clientEphemeralKey).toOption
  let server := newStaticServer p.serverKey p.serverNonce p.serverEphemeralKey
  let (auth, client) ← Prog.result? (writeAuth p.authRng) client
  let (_, server) ← Prog.result? (readAuth auth) server
  let (ack, server) ← Prog.result? (writeAck p.ackRng) server
  let (_, client) ← Prog.result? (readAck ack) client
  pure (client, server)

/-- The state of a client that knows the key of its server. -/
def freshClient (p : Parties c) : ECIES c :=
  { newStaticServer p.clientKey p.clientNonce p.clientEphemeralKey with
    remotePublicKey := some (c.fromSecretKey p.serverKey)
    remoteId := some (pk2id (c.fromSecretKey p.serverKey)) }

theorem newStaticClient_eq (h : c.SecpLaws) (p : Parties c) :
    newStaticClient p.clientKey (pk2id (c.fromSecretKey p.serverKey)) p.clientNonce p.clientEphemeralKey =
      .ok (freshClient p) := by
  unfold newStaticClient
  rw [id2pk_pk2id h]
  rfl

/-- The auth message of the client. -/
def authMsg (p : Parties c) : Bytes :=
  packet p.authRng.toEncryptRng (c.fromSecretKey p.serverKey)
    (authPlain p.authRng (freshClient p) (c.fromSecretKey p.serverKey))

/-- The server after the auth message. -/
def authedServer (p : Parties c) : ECIES c :=
  learnAuth { newStaticServer p.serverKey p.serverNonce p.serverEphemeralKey with remoteInitMsg := some (authMsg p) }
    (freshClient p)

/-- The ack message of the server. -/
def ackMsg (p : Parties c) : Bytes := ackPacket p.ackRng (authedServer p) (c.fromSecretKey p.clientKey)

/-- The shared secret of the ephemeral keys, as the client computes it. -/
def ephemeralSecret (p : Parties c) : H256 := ecdhX (c.fromSecretKey p.serverEphemeralKey) p.clientEphemeralKey

/-- The client after the handshake. -/
def sessionClient (p : Parties c) : ECIES c :=
  framed (learnAck { freshClient p with initMsg := some (authMsg p), remoteInitMsg := some (ackMsg p) } (authedServer p))
    (ephemeralSecret p) (nonceHash c p.serverNonce p.clientNonce) p.serverNonce (ackMsg p) (authMsg p)

/-- The server after the handshake. -/
def sessionServer (p : Parties c) : ECIES c :=
  framed { authedServer p with initMsg := some (ackMsg p) } (ephemeralSecret p)
    (nonceHash c p.serverNonce p.clientNonce) p.clientNonce (authMsg p) (ackMsg p)

theorem run_writeAuth_client (hr : c.rlp.Lawful) (p : Parties c) : (writeAuth p.authRng).run (freshClient p) =
    .ok (authMsg p) { freshClient p with initMsg := some (authMsg p) } := run_writeAuth hr p.authRng rfl

/-- The codec of the client writes its auth message. -/
theorem run_encode_auth (hr : c.rlp.Lawful) (p : Parties c) :
    (ECIESCodec.encode (.auth p.authRng)).run ⟨freshClient p, .auth⟩ =
      .ok (authMsg p) ⟨{ freshClient p with initMsg := some (authMsg p) }, .ack⟩ := by
  unfold ECIESCodec.encode
  rw [Prog.run_bind_ok (EStateM.run_modify _ _), ECIESCodec.run_inEncode (run_writeAuth_client hr p)]

theorem run_readAuth_server (h : c.SecpLaws) (hr : c.rlp.Lawful) (p : Parties c) :
    (readAuth (authMsg p)).run (newStaticServer p.serverKey p.serverNonce p.serverEphemeralKey) =
      .ok () (authedServer p) := run_readAuth h hr p.authRng rfl rfl rfl

theorem run_writeAck_server (h : c.SecpLaws) (hr : c.rlp.Lawful) (p : Parties c) :
    (writeAck p.ackRng).run (authedServer p) = .ok (ackMsg p) (sessionServer p) := by
  have hx : (authedServer p).ephemeralSharedSecret = some (ephemeralSecret p) :=
    congrArg some (h.sharedX_comm p.clientEphemeralKey p.serverEphemeralKey)
  exact run_writeAck hr p.ackRng rfl rfl hx rfl

/-- The codec of the server writes its ack message. -/
theorem run_encode_ack (h : c.SecpLaws) (hr : c.rlp.Lawful) (p : Parties c) :
    (ECIESCodec.encode (.ack p.ackRng)).run ⟨authedServer p, .header⟩ = .ok (ackMsg p) ⟨sessionServer p, .header⟩ := by
  unfold ECIESCodec.encode
  rw [Prog.run_bind_ok (EStateM.run_modify _ _), ECIESCodec.run_inEncode (run_writeAck_server h hr p)]

theorem run_readAck_client (h : c.SecpLaws) (hr : c.rlp.Lawful) (p : Parties c) :
    (readAck (ackMsg p)).run { freshClient p with initMsg := some (authMsg p) } = .ok () (sessionClient p) :=
  run_readAck h hr p.ackRng rfl rfl rfl

theorem handshake_eq (h : c.SecpLaws) (hr : c.rlp.Lawful) (p : Parties c) :
    handshake p = some (sessionClient p, sessionServer p) := by
  unfold handshake
  rw [newStaticClient_eq h]
  simp only [Except.toOption, Option.bind_eq_bind, Option.bind_some, Prog.result?_of_ok (run_writeAuth_client hr p),
    Prog.result?_of_ok (run_readAuth_server h hr p), Prog.result?_of_ok (run_writeAck_server h hr p),
    Prog.result?_of_ok (run_readAck_client h hr p)]
  rfl

theorem sessions_agree (p : Parties c) :
    Agree (aesSecret c (ephemeralSecret p) (nonceHash c p.serverNonce p.clientNonce))
      (macSecret c (ephemeralSecret p) (nonceHash c p.serverNonce p.clientNonce)) (sessionClient p)
      (sessionServer p) where
  forth := ⟨⟨Aes256Ctr.new _ (FixedBytes.zero 16), initialMac _ p.serverNonce (authMsg p)⟩, rfl, rfl, ⟨rfl, rfl⟩,
    ⟨rfl, rfl⟩⟩
  back := ⟨⟨Aes256Ctr.new _ (FixedBytes.zero 16), initialMac _ p.clientNonce (ackMsg p)⟩, rfl, rfl, ⟨rfl, rfl⟩,
    ⟨rfl, rfl⟩⟩

/-- **The handshake agrees**: it succeeds, and what each side writes with, the other side reads with. -/
theorem handshake_agrees (h : c.SecpLaws) (hr : c.rlp.Lawful) (p : Parties c) :
    ∃ client server aesSecret macSecret, handshake p = some (client, server) ∧
      Agree aesSecret macSecret client server :=
  ⟨_, _, _, _, handshake_eq h hr p, sessions_agree p⟩

/-- Example parties: the keys `1` and `2`, the ephemeral keys `3` and `4`, and the keys `5` and `6` for the messages. -/
def exampleParties : Parties Software.crates where
  clientKey := Software.clientKey
  serverKey := Software.serverKey
  clientEphemeralKey := Software.clientEphemeralKey
  serverEphemeralKey := Software.serverEphemeralKey
  clientNonce := ⟨List.replicate 32 0x11, rfl⟩
  serverNonce := ⟨List.replicate 32 0x22, rfl⟩
  authRng := ⟨⟨Software.authKey, FixedBytes.zero 16⟩, 100, by decide, by decide⟩
  ackRng := ⟨Software.ackKey, FixedBytes.zero 16⟩

end ECIES

end EthereumSentry
