import EthereumSentry.Devp2p.Ecies.Session

/-!
# When a handshake message makes the codec panic

Before the session keys exist, `decode` hands the remote's bytes to `read_auth` (server) or `read_ack` (client).
`decrypt_message` splits them four times; the codec has only checked that the announced bytes have arrived. The
splits are in range exactly when the message is not `Truncated`: it has the 65 bytes of a key, and, if they are a
key, also the 16 bytes of the IV and the 32 of the tag (`decryptMessage_panics`). Nothing after the splits panics
(`parseAuthUnencrypted_safe`, `parseAckUnencrypted_safe`), so this decides both roles (`decode_handshake_total`).
-/

set_option autoImplicit false

namespace EthereumSentry

namespace ECIES

variable {c : Crates}

/-- Too short for the splits of `decrypt_message`: for the key, or, after a valid key, for the IV and the tag. -/
def Truncated (c : Crates) (data : Bytes) : Prop :=
  data.length < 67 ∨ data.length < 115 ∧ ∃ pk, c.fromSlice ((data.drop 2).take 65) = .ok pk

/-- **The splits of `decrypt_message`** are out of range exactly on truncated messages. -/
theorem decryptMessage_panics (data : Bytes) (s : ECIES c) :
    Prog.Panics (decryptMessage data) s ↔ Truncated c data := by
  unfold decryptMessage Truncated
  by_cases h2 : data.length < 2
  · simp only [Prog.panics_bind, Prog.panics_splitAt, h2, true_or, true_iff]
    exact .inl (by omega)
  rw [Prog.panics_bind_ok (Prog.run_splitAt (by omega) s)]
  dsimp only
  by_cases h65 : data.length < 67
  · simp only [Prog.panics_bind, Prog.panics_splitAt, List.length_drop, h65, true_or, iff_true]
    exact .inl (by omega)
  rw [Prog.panics_bind_ok (Prog.run_splitAt (by rw [List.length_drop]; omega) s)]
  dsimp only
  cases hk : c.fromSlice ((data.drop 2).take 65) with
  | error e =>
    simp only [reduceCtorEq, exists_false, and_false, or_false, h65, iff_false]
    exact Prog.not_panics_bind_err (Prog.run_ofExcept_error _ _ s)
  | ok pk =>
    rw [Prog.panics_bind_ok (Prog.run_ofExcept_ok _ _ s)]
    simp only [List.drop_drop, List.length_drop, h65, false_or, Except.ok.injEq, exists_eq', and_true]
    by_cases h32 : data.length - 67 < 32
    · simp only [Prog.panics_bind, Prog.panics_sub, Nat.reduceAdd, h32, true_or, true_iff]
      omega
    rw [Prog.panics_bind_ok (Prog.run_sub (by omega) s),
      Prog.panics_bind_ok (Prog.run_splitAt (by rw [List.length_drop]; omega) s)]
    dsimp only
    by_cases h16 : data.length < 115
    · simp only [Prog.panics_bind, Prog.panics_splitAt, List.length_take, List.length_drop, h16, iff_true]
      exact .inl (by omega)
    rw [Prog.panics_bind_ok (Prog.run_splitAt (by rw [List.length_take, List.length_drop]; omega) s)]
    dsimp only
    -- the tag and the IV have their lengths
    rw [FixedBytes.ofBytes?_eq_some (n := 32) (by simp only [List.length_drop]; omega),
      FixedBytes.ofBytes?_eq_some (n := 16) (by simp only [List.length_take, List.length_drop]; omega),
      Prog.panics_bind_ok (Prog.run_unwrap_some _ s), Prog.panics_bind_ok (Prog.run_unwrap_some _ s),
      Prog.panics_bind_ok (EStateM.run_get s)]
    simp only [h16, iff_false]
    split <;> simp

/-- `decrypt_message` takes `&self`. -/
theorem decryptMessage_keeps (data : Bytes) : Prog.Keeps (decryptMessage data : Prog ECIESError (ECIES c) Bytes) := by
  unfold decryptMessage
  refine Prog.keeps_bind (Prog.keeps_splitAt _ _) fun _ => Prog.keeps_bind (Prog.keeps_splitAt _ _) fun _ =>
    Prog.keeps_bind (Prog.keeps_ofExcept _ _) fun _ => Prog.keeps_bind (Prog.keeps_sub _ _) fun _ =>
    Prog.keeps_bind (Prog.keeps_splitAt _ _) fun _ => Prog.keeps_bind (Prog.keeps_splitAt _ _) fun _ =>
    Prog.keeps_bind (Prog.keeps_unwrap _) fun _ => Prog.keeps_bind (Prog.keeps_unwrap _) fun _ =>
    Prog.keeps_bind Prog.keeps_get fun _ => ?_
  dsimp only
  split
  · exact Prog.keeps_fail _
  · exact Prog.keeps_pure _

theorem nextItem_safe (items : List Bytes) (s : ECIES c) : ¬Prog.Panics (nextItem items) s := by
  cases items <;> simp [nextItem]

theorem nextItem_keeps (items : List Bytes) : Prog.Keeps (nextItem items : Prog ECIESError (ECIES c) _) := by
  cases items with
  | nil => exact Prog.keeps_fail _
  | cons x rest => exact Prog.keeps_pure _

/-- Everything after the splits of the auth message is checked before it is used. -/
theorem parseAuthUnencrypted_safe (data : Bytes) (s : ECIES c) : ¬Prog.Panics (parseAuthUnencrypted data) s := by
  unfold parseAuthUnencrypted
  refine Prog.not_panics_bind (nextItem_safe _ _) fun ⟨item, rlp⟩ s₁ _ => ?_
  refine Prog.not_panics_bind_ofExcept fun sigdata _ => ?_
  dsimp only
  split
  · exact Prog.panics_fail _ _
  rename_i h65
  have h65 : sigdata.length = 65 := not_not.1 h65
  rw [Prog.panics_bind_ok (Prog.run_splitAt (by omega) s₁)]
  obtain ⟨recByte, hrec⟩ : ∃ x, (sigdata.drop 64).head? = some x :=
    ⟨sigdata[64], by rw [List.head?_drop, List.getElem?_eq_getElem]⟩
  dsimp only
  rw [hrec, Prog.panics_bind_ok (Prog.run_unwrap_some _ s₁)]
  refine Prog.not_panics_bind_ofExcept fun recId _ => Prog.not_panics_bind_ofExcept fun signature _ => ?_
  refine Prog.not_panics_bind (nextItem_safe _ _) fun ⟨item, rlp⟩ s₂ _ => ?_
  refine Prog.not_panics_bind_ofExcept fun remoteId _ => ?_
  dsimp only
  rw [Prog.panics_bind_ok (EStateM.run_modify _ s₂)]
  refine Prog.not_panics_bind_ofExcept fun remotePublicKey _ => ?_
  rw [Prog.panics_bind_ok (EStateM.run_modify _ _)]
  refine Prog.not_panics_bind (nextItem_safe _ _) fun ⟨item, _⟩ s₃ h₃ => ?_
  obtain rfl := nextItem_keeps _ _ _ _ h₃
  refine Prog.not_panics_bind_ofExcept fun remoteNonce _ => ?_
  dsimp only
  rw [Prog.panics_bind_ok (EStateM.run_modify _ _), Prog.panics_bind_ok (EStateM.run_get _)]
  dsimp only
  -- the fields that are unwrapped were just set
  rw [Prog.panics_bind_ok (Prog.run_unwrap_some _ _), Prog.panics_bind_ok (Prog.run_unwrap_some _ _)]
  refine Prog.not_panics_bind_ofExcept fun remoteEphemeral _ => ?_
  rw [Prog.panics_bind_ok (EStateM.run_modify _ _), Prog.panics_bind_ok (EStateM.run_get _)]
  dsimp only
  rw [Prog.panics_bind_ok (Prog.run_unwrap_some _ _)]
  exact Prog.panics_modify _ _

/-- Everything after the splits of the ack message is checked before it is used. -/
theorem parseAckUnencrypted_safe (data : Bytes) (s : ECIES c) : ¬Prog.Panics (parseAckUnencrypted data) s := by
  unfold parseAckUnencrypted
  refine Prog.not_panics_bind (nextItem_safe _ _) fun ⟨item, rlp⟩ s₁ _ => ?_
  refine Prog.not_panics_bind_ofExcept fun id _ => Prog.not_panics_bind_ofExcept fun remoteEphemeral _ => ?_
  rw [Prog.panics_bind_ok (EStateM.run_modify _ _)]
  refine Prog.not_panics_bind (nextItem_safe _ _) fun ⟨item, _⟩ s₂ h₂ => ?_
  obtain rfl := nextItem_keeps _ _ _ _ h₂
  refine Prog.not_panics_bind_ofExcept fun remoteNonce _ => ?_
  rw [Prog.panics_bind_ok (EStateM.run_modify _ _), Prog.panics_bind_ok (EStateM.run_get _)]
  dsimp only
  rw [Prog.panics_bind_ok (Prog.run_unwrap_some _ _)]
  exact Prog.panics_modify _ _

/-- A parsed ack message leaves the nonce and the shared secret of the remote, and the kept messages. -/
theorem parseAckUnencrypted_ok {data : Bytes} {s s' : ECIES c}
    (h : (parseAckUnencrypted data).run s = .ok () s') :
    s'.remoteNonce.isSome ∧ s'.ephemeralSharedSecret.isSome ∧ s'.remoteInitMsg = s.remoteInitMsg ∧
      s'.initMsg = s.initMsg := by
  unfold parseAckUnencrypted at h
  rw [Prog.run_bind_eq_ok] at h
  obtain ⟨⟨item, rlp⟩, s₁, h₁, h⟩ := h
  obtain rfl := nextItem_keeps _ _ _ _ h₁
  dsimp only at h
  rw [Prog.run_bind_eq_ok] at h
  obtain ⟨id, s₂, h₂, h⟩ := h
  obtain ⟨_, rfl⟩ := Prog.run_ofExcept_eq_ok.1 h₂
  rw [Prog.run_bind_eq_ok] at h
  obtain ⟨remoteEphemeral, s₃, h₃, h⟩ := h
  obtain ⟨_, rfl⟩ := Prog.run_ofExcept_eq_ok.1 h₃
  rw [Prog.run_bind_ok (EStateM.run_modify _ _), Prog.run_bind_eq_ok] at h
  obtain ⟨⟨item, _⟩, s₄, h₄, h⟩ := h
  obtain rfl := nextItem_keeps _ _ _ _ h₄
  dsimp only at h
  rw [Prog.run_bind_eq_ok] at h
  obtain ⟨remoteNonce, s₅, h₅, h⟩ := h
  obtain ⟨_, rfl⟩ := Prog.run_ofExcept_eq_ok.1 h₅
  rw [Prog.run_bind_ok (EStateM.run_modify _ _), Prog.run_bind_ok (EStateM.run_get _)] at h
  dsimp only at h
  rw [Prog.run_bind_ok (Prog.run_unwrap_some _ _), EStateM.run_modify] at h
  cases h
  exact ⟨rfl, rfl, rfl, rfl⟩

/-- A parsed auth message leaves the identity of the remote. -/
theorem parseAuthUnencrypted_ok {data : Bytes} {s s' : ECIES c}
    (h : (parseAuthUnencrypted data).run s = .ok () s') : s'.remoteId.isSome := by
  unfold parseAuthUnencrypted at h
  rw [Prog.run_bind_eq_ok] at h
  obtain ⟨⟨item, rlp⟩, s₁, -, h⟩ := h
  dsimp only at h
  rw [Prog.run_bind_eq_ok] at h
  obtain ⟨sigdata, s₂, -, h⟩ := h
  split at h
  · cases h
  rw [Prog.run_bind_eq_ok] at h
  obtain ⟨⟨compact, last⟩, s₃, -, h⟩ := h
  dsimp only at h
  rw [Prog.run_bind_eq_ok] at h
  obtain ⟨recByte, s₄, -, h⟩ := h
  rw [Prog.run_bind_eq_ok] at h
  obtain ⟨recId, s₅, -, h⟩ := h
  rw [Prog.run_bind_eq_ok] at h
  obtain ⟨signature, s₆, -, h⟩ := h
  rw [Prog.run_bind_eq_ok] at h
  obtain ⟨⟨item, rlp⟩, s₇, -, h⟩ := h
  dsimp only at h
  rw [Prog.run_bind_eq_ok] at h
  obtain ⟨remoteId, s₈, -, h⟩ := h
  -- from here on the identity is set and stays
  rw [Prog.run_bind_ok (EStateM.run_modify _ _), Prog.run_bind_eq_ok] at h
  obtain ⟨remotePublicKey, s₉, h₉, h⟩ := h
  obtain ⟨-, rfl⟩ := Prog.run_ofExcept_eq_ok.1 h₉
  rw [Prog.run_bind_ok (EStateM.run_modify _ _), Prog.run_bind_eq_ok] at h
  obtain ⟨⟨item, _⟩, s₁₀, h₁₀, h⟩ := h
  obtain rfl := nextItem_keeps _ _ _ _ h₁₀
  dsimp only at h
  rw [Prog.run_bind_eq_ok] at h
  obtain ⟨remoteNonce, s₁₁, h₁₁, h⟩ := h
  obtain ⟨-, rfl⟩ := Prog.run_ofExcept_eq_ok.1 h₁₁
  rw [Prog.run_bind_ok (EStateM.run_modify _ _), Prog.run_bind_ok (EStateM.run_get _)] at h
  dsimp only at h
  rw [Prog.run_bind_ok (Prog.run_unwrap_some _ _), Prog.run_bind_ok (Prog.run_unwrap_some _ _),
    Prog.run_bind_eq_ok] at h
  obtain ⟨remoteEphemeral, s₁₂, h₁₂, h⟩ := h
  obtain ⟨-, rfl⟩ := Prog.run_ofExcept_eq_ok.1 h₁₂
  rw [Prog.run_bind_ok (EStateM.run_modify _ _), Prog.run_bind_ok (EStateM.run_get _)] at h
  dsimp only at h
  rw [Prog.run_bind_ok (Prog.run_unwrap_some _ _), EStateM.run_modify] at h
  cases h
  rfl

/-- **`setup_frame` unwraps four fields.** -/
theorem setupFrame_panics (incoming : Bool) (s : ECIES c) : Prog.Panics (setupFrame incoming) s ↔
    s.remoteNonce = none ∨ s.ephemeralSharedSecret = none ∨ s.remoteInitMsg = none ∨ s.initMsg = none := by
  unfold setupFrame
  rw [Prog.panics_bind_ok (EStateM.run_get s)]
  cases s.remoteNonce with
  | none => simp
  | some remoteNonce =>
    rw [Prog.panics_bind_ok (Prog.run_unwrap_some _ _)]
    cases s.ephemeralSharedSecret with
    | none => simp
    | some ephemeral =>
      rw [Prog.panics_bind_ok (Prog.run_unwrap_some _ _), Prog.panics_bind_ok (EStateM.run_modify _ _),
        Prog.panics_bind_ok (EStateM.run_modify _ _)]
      cases s.remoteInitMsg with
      | none => simp
      | some remoteInitMsg =>
        rw [Prog.panics_bind_ok (Prog.run_unwrap_some _ _), Prog.panics_bind_ok (EStateM.run_modify _ _),
          Prog.panics_bind_ok (EStateM.run_modify _ _)]
        cases s.initMsg <;> simp

theorem readAuth_ok {data : Bytes} {s s' : ECIES c} (h : (readAuth data).run s = .ok () s') :
    s'.remoteId.isSome := by
  unfold readAuth at h
  rw [Prog.run_bind_ok (EStateM.run_modify _ _), Prog.run_bind_eq_ok] at h
  obtain ⟨out, s₁, -, h⟩ := h
  exact parseAuthUnencrypted_ok h

/-- `read_auth` panics exactly on truncated messages. -/
theorem readAuth_panics (data : Bytes) (s : ECIES c) : Prog.Panics (readAuth data) s ↔ Truncated c data := by
  unfold readAuth
  rw [Prog.panics_bind_ok (EStateM.run_modify _ _), Prog.panics_bind, decryptMessage_panics]
  refine or_iff_left ?_
  rintro ⟨out, s', _, h⟩
  exact parseAuthUnencrypted_safe out s' h

/-- `read_ack`, after `write_auth`, panics exactly on truncated messages. -/
theorem readAck_panics (data : Bytes) {s : ECIES c} (hi : s.initMsg.isSome) :
    Prog.Panics (readAck data) s ↔ Truncated c data := by
  unfold readAck
  rw [Prog.panics_bind_ok (EStateM.run_modify _ _), Prog.panics_bind, decryptMessage_panics]
  refine or_iff_left ?_
  rintro ⟨out, s₁, h₁, h⟩
  obtain rfl := decryptMessage_keeps _ _ _ _ h₁
  revert h
  refine Prog.not_panics_bind (parseAckUnencrypted_safe out _) fun _ s₂ h₂ => ?_
  obtain ⟨hn, he, hr, hi'⟩ := parseAckUnencrypted_ok h₂
  rw [setupFrame_panics, hr, hi']
  rintro (h | h | h | h)
  · rw [h] at hn; cases hn
  · rw [h] at he; cases he
  · cases h
  · rw [h] at hi; cases hi

end ECIES

namespace ECIESCodec

variable {c : Crates}

/-- A handshake message off the front of the buffer: when all of it has arrived, the reader decides. -/
theorem decodeHandshake_panics {read : Bytes → Prog ECIESError (ECIES c) Unit}
    {value : Prog IoError (Decoding c) IngressECIESValue} {s : Decoding c}
    (hvalue : ∀ data e, (read data).run s.codec.ecies = .ok () e → ∀ buf, ¬Prog.Panics value ⟨⟨e, .header⟩, buf⟩) :
    Prog.Panics (decodeHandshake read value) s ↔
      2 ≤ s.buf.length ∧ announced s.buf + 2 ≤ s.buf.length ∧
        Prog.Panics (read (s.buf.take (announced s.buf + 2))) s.codec.ecies := by
  unfold decodeHandshake
  rw [Prog.panics_bind_ok (EStateM.run_get _)]
  by_cases h2 : s.buf.length < 2
  · simp [h2]
  by_cases ht : s.buf.length < announced s.buf + 2
  · simp [h2, ht]
  simp only [h2, ht, ↓reduceIte]
  rw [Prog.panics_bind_ok (run_splitTo (by omega)), Prog.panics_bind]
  simp only [inDecode, Prog.panics_zoom]
  rw [or_iff_left]
  · exact ⟨fun h => ⟨by omega, by omega, h⟩, fun h => h.2.2⟩
  rintro ⟨_, s₁, h₁, h⟩
  obtain ⟨e, he, rfl⟩ := Prog.run_zoom_eq_ok.1 h₁
  revert h
  simp only [setState]
  rw [Prog.panics_bind_ok (EStateM.run_modify _ _)]
  exact Prog.not_panics_bind (hvalue _ e he _) fun v s₂ _ => Prog.panics_pure _ _

/-- The announced handshake message has arrived. -/
def Arrived (buf : Bytes) : Prop := 2 ≤ buf.length ∧ announced buf + 2 ≤ buf.length

/-- The announced handshake message, with its length bytes. -/
def message (buf : Bytes) : Bytes := buf.take (announced buf + 2)

/-- The codec waits for a handshake message: a server for auth, a client that has written auth for ack. -/
def Awaiting (codec : ECIESCodec c) : Prop :=
  codec.state = .auth ∨ codec.state = .ack ∧ codec.ecies.initMsg.isSome

theorem newServer_awaiting (secretKey : c.SecretKey) (nonce : H256) (ephemeral : c.SecretKey) :
    Awaiting (newServer secretKey nonce ephemeral) := .inl rfl

/-- A client that has written its auth message waits for the ack. -/
theorem encode_auth_awaiting {rng : ECIES.AuthRng c} {codec codec' : ECIESCodec c} {out : Bytes}
    (h : (encode (.auth rng)).run codec = .ok out codec') : Awaiting codec' := by
  unfold encode at h
  rw [Prog.run_bind_ok (EStateM.run_modify _ _)] at h
  obtain ⟨e, he, rfl⟩ := Prog.run_zoom_eq_ok.1 h
  refine .inr ⟨rfl, ?_⟩
  unfold ECIES.writeAuth at he
  rw [Prog.run_bind_eq_ok] at he
  obtain ⟨_, s₁, -, he⟩ := he
  rw [Prog.run_bind_eq_ok] at he
  obtain ⟨_, s₂, -, he⟩ := he
  rw [Prog.run_bind_eq_ok] at he
  obtain ⟨_, s₃, -, he⟩ := he
  rw [Prog.run_bind_ok (EStateM.run_modify _ _)] at he
  cases he
  rfl

/-- **Decoding a handshake message panics** exactly when it has arrived and is truncated. -/
theorem decode_handshake_panics {codec : ECIESCodec c} (h : Awaiting codec) (buf : Bytes) :
    Prog.Panics decode ⟨codec, buf⟩ ↔ Arrived buf ∧ ECIES.Truncated c (message buf) := by
  unfold decode
  rw [Prog.panics_bind_ok (EStateM.run_get _)]
  rcases h with hs | ⟨hs, hi⟩
  · simp only [hs]
    rw [decodeHandshake_panics, ECIES.readAuth_panics, ← and_assoc]
    · rfl
    · intro data e he buf
      obtain ⟨id, hid⟩ := Option.isSome_iff_exists.1 (ECIES.readAuth_ok he)
      rw [Prog.panics_bind_ok (EStateM.run_get _), hid, Prog.panics_bind_ok (Prog.run_unwrap_some _ _)]
      exact Prog.panics_pure _ _
  · simp only [hs]
    rw [decodeHandshake_panics, ECIES.readAck_panics _ hi, ← and_assoc]
    · rfl
    · exact fun _ _ _ _ => Prog.panics_pure _ _

/-- **The handshake is total except on truncated messages**: a codec that waits for a handshake message returns on
every receive buffer, unless the message has arrived and is truncated. -/
theorem decode_handshake_total {codec : ECIESCodec c} (h : Awaiting codec) (buf : Bytes) :
    ¬Prog.Panics decode ⟨codec, buf⟩ ↔ (Arrived buf → ¬ECIES.Truncated c (message buf)) := by
  rw [decode_handshake_panics h, not_and]

section Example

open Software

/-- A whole message of 113 zeros: the first 65 are no key. -/
def zeros : Bytes := 0 :: 113 :: List.replicate 113 0

/-- A server returns on it, and so does a client that has written its auth message. -/
theorem decode_zeros_total : ¬Prog.Panics decode
      ⟨newServer serverKey (FixedBytes.zero 32) serverEphemeralKey, zeros⟩ ∧
    ∃ out codec, (encode (.auth ECIES.exampleParties.authRng)).run ⟨ECIES.freshClient ECIES.exampleParties, .auth⟩ =
      .ok out codec ∧ ¬Prog.Panics decode ⟨codec, zeros⟩ := by
  have hzeros : Arrived zeros → ¬ECIES.Truncated crates (message zeros) := fun _ => by
    have hl : (message zeros).length = 115 := by decide
    rintro (h | ⟨h, -⟩) <;> omega
  have hrun := ECIES.run_encode_auth Rlp.standard_lawful ECIES.exampleParties
  exact ⟨(decode_handshake_total (newServer_awaiting _ _ _) _).2 hzeros, _, _, hrun,
    (decode_handshake_total (encode_auth_awaiting hrun) _).2 hzeros⟩

/-- A server that receives the length `0`, and nothing else, panics: the empty message has no key to split off. -/
theorem decode_empty_panics : ¬∀ (codec : ECIESCodec crates) (buf : Bytes),
    Awaiting codec → ¬Prog.Panics decode ⟨codec, buf⟩ := by
  intro h
  have hs := newServer_awaiting serverKey (FixedBytes.zero 32) serverEphemeralKey
  refine h _ [0, 0] hs ((decode_handshake_panics hs _).2 ⟨⟨by decide, by decide⟩, .inl ?_⟩)
  decide

end Example

end ECIESCodec

end EthereumSentry
