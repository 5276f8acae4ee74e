import EthereumSentry.Devp2p.Ecies.Connect
import EthereumSentry.Devp2p.Ecies.Frames
import EthereumSentry.Devp2p.Ecies.HandshakeSafe
import EthereumSentry.Lib.Twin

/-!
# The typestate of a connection

The state of the algorithm has twelve optional fields, which the source unwraps in the belief that `connect`, `incoming`
and the loop of `Framed` call its functions in the right order. `Stage.Holds` says which of them are set where a future
goes on, and on the stream that it returns. A state `Fills` another one when it has more of them set, and an operation
lacks a field when it panics and would not in some state that fills this one, as a codec does that reads a header
before it has written its ack message (`decode_lacks`). From every state of a run, every operation does the same in all
states that fill it (`perform_twin`), so it lacks nothing (`handshake_typestate`). What it may still panic on, a
truncated handshake message or a message of `2 ^ 24` bytes, it panics on whatever is set.
-/

set_option autoImplicit false

namespace EthereumSentry

variable {c : Crates}

open Prog

namespace ECIES

/-- The second state is the first one with some of its unset optional fields set. -/
structure Fills (s t : ECIES c) : Prop where
  secretKey : t.secretKey = s.secretKey
  publicKey : t.publicKey = s.publicKey
  ephemeralSecretKey : t.ephemeralSecretKey = s.ephemeralSecretKey
  ephemeralPublicKey : t.ephemeralPublicKey = s.ephemeralPublicKey
  nonce : t.nonce = s.nonce
  remotePublicKey : ∀ x, s.remotePublicKey = some x → t.remotePublicKey = some x
  remoteId : ∀ x, s.remoteId = some x → t.remoteId = some x
  ephemeralSharedSecret : ∀ x, s.ephemeralSharedSecret = some x → t.ephemeralSharedSecret = some x
  remoteEphemeralPublicKey : ∀ x, s.remoteEphemeralPublicKey = some x → t.remoteEphemeralPublicKey = some x
  remoteNonce : ∀ x, s.remoteNonce = some x → t.remoteNonce = some x
  ingressAes : ∀ x, s.ingressAes = some x → t.ingressAes = some x
  egressAes : ∀ x, s.egressAes = some x → t.egressAes = some x
  ingressMac : ∀ x, s.ingressMac = some x → t.ingressMac = some x
  egressMac : ∀ x, s.egressMac = some x → t.egressMac = some x
  initMsg : ∀ x, s.initMsg = some x → t.initMsg = some x
  remoteInitMsg : ∀ x, s.remoteInitMsg = some x → t.remoteInitMsg = some x
  bodySize : ∀ x, s.bodySize = some x → t.bodySize = some x

theorem Fills.refl (s : ECIES c) : Fills s s := by
  constructor <;> simp

/-! ## What an operation lacks -/

/-- The state with every optional field set. -/
def complete (s : ECIES c) : ECIES c := { s with
  remotePublicKey := s.remotePublicKey.or (some s.publicKey)
  remoteId := s.remoteId.or (some (FixedBytes.zero 64))
  ephemeralSharedSecret := s.ephemeralSharedSecret.or (some s.nonce)
  remoteEphemeralPublicKey := s.remoteEphemeralPublicKey.or (some s.publicKey)
  remoteNonce := s.remoteNonce.or (some s.nonce)
  ingressAes := s.ingressAes.or (some (Aes256Ctr.new s.nonce (FixedBytes.zero 16)))
  egressAes := s.egressAes.or (some (Aes256Ctr.new s.nonce (FixedBytes.zero 16)))
  ingressMac := s.ingressMac.or (some (MAC.new s.nonce))
  egressMac := s.egressMac.or (some (MAC.new s.nonce))
  initMsg := s.initMsg.or (some [])
  remoteInitMsg := s.remoteInitMsg.or (some [])
  bodySize := s.bodySize.or (some 0) }

theorem fills_complete (s : ECIES c) : s.Fills s.complete := by
  constructor <;> simp +contextual [complete]

/-- A header that is read needs the MAC; what else it needs depends on its tag. -/
theorem readHeader_lacks {data : Bytes} (hl : data.length = headerLen) {s : ECIES c} (hs : s.ingressMac = none) :
    Lacks Fills (readHeader data) s := by
  refine ⟨?_, s.complete, fills_complete s, wp_not_panics (readHeader_safe ⟨by simp [complete], by simp [complete]⟩ hl)⟩
  unfold headerLen at hl
  unfold readHeader ingressTag
  rw [panics_bind_ok (run_splitAt (by omega) s)]
  dsimp only
  rw [FixedBytes.ofBytes?_eq_some (by simp; omega), panics_bind_ok (run_unwrap_some _ s),
    panics_bind_ok (run_splitAt (by simp; omega) s)]
  dsimp only
  rw [FixedBytes.ofBytes?_eq_some (by simp; omega), panics_bind_ok (run_unwrap_some _ s), bind_assoc,
    panics_bind_ok (EStateM.run_get s), hs]
  simp

/-! ## Handshake messages -/

section Handshake

variable {s t : ECIES c}

theorem withLength_twin (encrypted : Bytes) {Q : Bytes → ECIES c → ECIES c → Prop} {E : ECIES c → ECIES c → Prop}
    (hQ : ∀ out, Q out s t) : Twin (withLength encrypted) (withLength encrypted) Q E s t := by
  simp only [withLength, twin_ite, twin_pure, hQ, twin_crash, ite_self]

theorem nextItem_twin_bind {β : Type} (items : List Bytes) {f g : Bytes × List Bytes → Prog ECIESError (ECIES c) β}
    {Q : β → ECIES c → ECIES c → Prop} {E : ECIES c → ECIES c → Prop} (hE : E s t)
    (hQ : ∀ x, Twin (f x) (g x) Q E s t) : Twin (nextItem items >>= f) (nextItem items >>= g) Q E s t := by
  cases items with
  | nil => exact .fail hE
  | cons x rest => exact hQ (x, rest)

/-- What a parsed ack message sets. -/
def withAck (s : ECIES c) (ephemeral : c.PublicKey) (nonce : H256) : ECIES c := { s with
  remoteEphemeralPublicKey := some ephemeral
  remoteNonce := some nonce
  ephemeralSharedSecret := some (ecdhX ephemeral s.ephemeralSecretKey) }

theorem parseAckUnencrypted_twin (data : Bytes) {Q : Unit → ECIES c → ECIES c → Prop}
    (hQ : ∀ ephemeral nonce, Q () (s.withAck ephemeral nonce) (t.withAck ephemeral nonce)) :
    Twin (parseAckUnencrypted data) (parseAckUnencrypted data) Q (fun _ _ => True) s t := by
  unfold parseAckUnencrypted
  refine nextItem_twin_bind _ (by trivial) fun x => ?_
  simp only [twin_ofExcept_bind, twin_modify_bind, implies_true, and_true]
  intro id _ ephemeral _
  refine nextItem_twin_bind _ (by trivial) fun x => ?_
  simp only [twin_ofExcept_bind, twin_modify_bind, twin_get_bind, twin_unwrap_bind, Option.some.injEq, forall_eq',
    twin_modify, implies_true, and_true]
  intro nonce _
  exact hQ ephemeral nonce

variable (h : Fills s t)

include h

theorem encryptMessage_twin (rng : EncryptRng c) (data : Bytes) (hk : s.remotePublicKey.isSome)
    {Q : Bytes → ECIES c → ECIES c → Prop} {E : ECIES c → ECIES c → Prop} (hQ : ∀ out, Q out s t) :
    Twin (encryptMessage rng data) (encryptMessage rng data) Q E s t := by
  obtain ⟨pk, hk⟩ := Option.isSome_iff_exists.1 hk
  unfold encryptMessage
  simp only [twin_get_bind, hk, h.remotePublicKey _ hk, twin_unwrap_bind, Option.some.injEq, forall_eq', twin_ite,
    pure_bind, twin_pure, hQ, twin_crash_bind, ite_self]

theorem decryptMessage_twin (data : Bytes) {Q : Bytes → ECIES c → ECIES c → Prop} {E : ECIES c → ECIES c → Prop}
    (hQ : ∀ out, Q out s t) (hE : E s t) : Twin (decryptMessage data) (decryptMessage data) Q E s t := by
  unfold decryptMessage
  simp only [twin_splitAt_bind, twin_ofExcept_bind, twin_sub_bind, twin_unwrap_bind, twin_get_bind, h.secretKey,
    twin_ite, twin_fail, twin_pure, hQ, hE, ite_self, implies_true, and_self]

theorem writeAuth_twin (rng : AuthRng c) (hk : s.remotePublicKey.isSome) {Q : Bytes → ECIES c → ECIES c → Prop}
    {E : ECIES c → ECIES c → Prop}
    (hQ : ∀ out, Q out { s with initMsg := some out } { t with initMsg := some out }) :
    Twin (writeAuth rng) (writeAuth rng) Q E s t := by
  obtain ⟨pk, hpk⟩ := Option.isSome_iff_exists.1 hk
  unfold writeAuth createAuthUnencrypted
  simp only [bind_assoc, pure_bind, twin_get_bind, hpk, h.remotePublicKey _ hpk, twin_unwrap_bind, Option.some.injEq,
    forall_eq', h.secretKey, h.ephemeralSecretKey, h.publicKey, h.nonce]
  refine twin_bind (encryptMessage_twin h _ _ hk fun encrypted => ?_)
  refine twin_bind (withLength_twin _ fun out => ?_)
  simpa only [twin_modify_bind, twin_pure] using hQ out

/-- What a parsed auth message sets. -/
def withAuth (s : ECIES c) (remoteId : PeerId) (pk ephemeral : c.PublicKey) (nonce : H256) : ECIES c := { s with
  remoteId := some remoteId
  remotePublicKey := some pk
  remoteNonce := some nonce
  remoteEphemeralPublicKey := some ephemeral
  ephemeralSharedSecret := some (ecdhX ephemeral s.ephemeralSecretKey) }

theorem parseAuthUnencrypted_twin (data : Bytes) {Q : Unit → ECIES c → ECIES c → Prop}
    (hQ : ∀ remoteId pk ephemeral nonce, Q () (s.withAuth remoteId pk ephemeral nonce)
      (t.withAuth remoteId pk ephemeral nonce)) :
    Twin (parseAuthUnencrypted data) (parseAuthUnencrypted data) Q (fun _ _ => True) s t := by
  unfold parseAuthUnencrypted
  refine nextItem_twin_bind _ (by trivial) fun x => ?_
  simp only [twin_ofExcept_bind, twin_ite, twin_fail, twin_splitAt_bind, twin_unwrap_bind, implies_true, and_true]
  intro sigdata _
  split
  · trivial
  · intro _ recByte _ recId _ sig _
    refine nextItem_twin_bind _ (by trivial) fun x => ?_
    simp only [twin_ofExcept_bind, twin_modify_bind, implies_true, and_true]
    intro remoteId _ pk _
    refine nextItem_twin_bind _ (by trivial) fun x => ?_
    simp only [twin_ofExcept_bind, twin_modify_bind, twin_get_bind, twin_unwrap_bind, Option.some.injEq, forall_eq',
      twin_modify, h.secretKey, implies_true, and_true]
    intro nonce _ ephemeral _
    simpa only [withAuth, h.secretKey] using hQ remoteId pk ephemeral nonce

theorem readAuth_twin (data : Bytes) {Q : Unit → ECIES c → ECIES c → Prop}
    (hQ : ∀ remoteId pk ephemeral nonce,
      Q () { s.withAuth remoteId pk ephemeral nonce with remoteInitMsg := some data }
        { t.withAuth remoteId pk ephemeral nonce with remoteInitMsg := some data }) :
    Twin (readAuth data) (readAuth data) Q (fun _ _ => True) s t := by
  have h' : Fills { s with remoteInitMsg := some data } { t with remoteInitMsg := some data } :=
    { h with remoteInitMsg := fun _ h => h }
  unfold readAuth
  rw [twin_modify_bind]
  exact twin_bind (decryptMessage_twin h' _ (fun _ => parseAuthUnencrypted_twin h' _ hQ) trivial)

/-- What `setup_frame` unwraps. -/
structure CanSetUp (s : ECIES c) : Prop where
  remoteNonce : s.remoteNonce.isSome
  ephemeralSharedSecret : s.ephemeralSharedSecret.isSome
  remoteInitMsg : s.remoteInitMsg.isSome
  initMsg : s.initMsg.isSome

/-- The egress side is set up. -/
def CanWrite (s : ECIES c) : Prop := s.egressAes.isSome ∧ s.egressMac.isSome

/-- Both sides are set up, and the second state is the first one, filled. -/
structure Ready (s t : ECIES c) : Prop where
  fills : Fills s t
  canRead : s.CanRead
  canWrite : s.CanWrite

theorem setupFrame_twin (incoming : Bool) (hs : s.CanSetUp) {Q : Unit → ECIES c → ECIES c → Prop}
    {E : ECIES c → ECIES c → Prop} (hQ : ∀ s' t', Ready s' t' → Q () s' t') :
    Twin (setupFrame incoming) (setupFrame incoming) Q E s t := by
  obtain ⟨remoteNonce, hn⟩ := Option.isSome_iff_exists.1 hs.remoteNonce
  obtain ⟨ephemeral, he⟩ := Option.isSome_iff_exists.1 hs.ephemeralSharedSecret
  obtain ⟨remoteInitMsg, hr⟩ := Option.isSome_iff_exists.1 hs.remoteInitMsg
  obtain ⟨initMsg, hi⟩ := Option.isSome_iff_exists.1 hs.initMsg
  rw [twin_of_run (run_setupFrame incoming hn he hr hi) (run_setupFrame incoming (h.remoteNonce _ hn)
    (h.ephemeralSharedSecret _ he) (h.remoteInitMsg _ hr) (h.initMsg _ hi)), h.nonce]
  refine hQ _ _ ⟨?_, ⟨rfl, rfl⟩, ⟨rfl, rfl⟩⟩
  exact { h with
    ingressAes := fun _ h => h
    egressAes := fun _ h => h
    ingressMac := fun _ hm => by rw [← hm, framed, framed, h.nonce]
    egressMac := fun _ h => h }

theorem writeAck_twin (rng : EncryptRng c) (hk : s.remotePublicKey.isSome) (hn : s.remoteNonce.isSome)
    (he : s.ephemeralSharedSecret.isSome) (hr : s.remoteInitMsg.isSome) {Q : Bytes → ECIES c → ECIES c → Prop}
    {E : ECIES c → ECIES c → Prop} (hQ : ∀ out s' t', Ready s' t' → Q out s' t') :
    Twin (writeAck rng) (writeAck rng) Q E s t := by
  have hplain : createAckUnencrypted t = createAckUnencrypted s := by
    rw [createAckUnencrypted, h.ephemeralPublicKey, h.nonce]
    rfl
  unfold writeAck
  rw [twin_get_bind]
  dsimp only
  rw [hplain]
  refine twin_bind (encryptMessage_twin h _ _ hk fun encrypted => ?_)
  refine twin_bind (withLength_twin _ fun out => ?_)
  rw [twin_modify_bind]
  have h' : Fills { s with initMsg := some out } { t with initMsg := some out } := { h with initMsg := fun _ h => h }
  refine twin_bind (setupFrame_twin h' true ⟨hn, he, hr, rfl⟩ fun s' t' hs' => ?_)
  exact (twin_pure _ _ _ _ _).2 (hQ out s' t' hs')

theorem readAck_twin (data : Bytes) (hi : s.initMsg.isSome) {Q : Unit → ECIES c → ECIES c → Prop}
    (hQ : ∀ s' t', Ready s' t' → Q () s' t') : Twin (readAck data) (readAck data) Q (fun _ _ => True) s t := by
  have h' : Fills { s with remoteInitMsg := some data } { t with remoteInitMsg := some data } :=
    { h with remoteInitMsg := fun _ h => h }
  have hack (ephemeral : c.PublicKey) (nonce : H256) :
      Fills ({ s with remoteInitMsg := some data }.withAck ephemeral nonce)
        ({ t with remoteInitMsg := some data }.withAck ephemeral nonce) := { h' with
    remoteEphemeralPublicKey := fun _ h => h
    remoteNonce := fun _ h => h
    ephemeralSharedSecret := fun _ hs => by rw [← hs, withAck, withAck, h.ephemeralSecretKey] }
  unfold readAck
  rw [twin_modify_bind]
  refine twin_bind (decryptMessage_twin h' _ (fun _ => twin_bind ?_) trivial)
  exact parseAckUnencrypted_twin _ fun ephemeral nonce =>
    setupFrame_twin (hack ephemeral nonce) false ⟨rfl, rfl, rfl, hi⟩ hQ

end Handshake

/-! ## Frames -/

section Frames

variable {s t : ECIES c}

theorem Ready.setSize (h : Ready s t) (size : Option Nat) :
    Ready { s with bodySize := size } { t with bodySize := size } :=
  ⟨{ h.fills with bodySize := fun _ h => h }, h.canRead, h.canWrite⟩

theorem decrypt_twin (h : Ready s t) (data : Bytes) {Q : Bytes → ECIES c → ECIES c → Prop}
    {E : ECIES c → ECIES c → Prop} (hQ : ∀ out s' t', Ready s' t' → s'.bodySize = s.bodySize → Q out s' t') :
    Twin (decrypt data) (decrypt data) Q E s t := by
  obtain ⟨aes, ha⟩ := Option.isSome_iff_exists.1 h.canRead.1
  simp only [decrypt, twin_get_bind, ha, h.fills.ingressAes _ ha, twin_unwrap_bind, Option.some.injEq, forall_eq',
    twin_modify_bind, twin_pure]
  exact hQ _ _ _ ⟨{ h.fills with ingressAes := fun _ h => h }, ⟨rfl, h.canRead.2⟩, h.canWrite⟩ rfl

theorem ingressTag_twin (h : Ready s t) (f : MAC → MAC) {Q : H128 → ECIES c → ECIES c → Prop}
    {E : ECIES c → ECIES c → Prop} (hQ : ∀ out s' t', Ready s' t' → s'.bodySize = s.bodySize → Q out s' t') :
    Twin (ingressTag f) (ingressTag f) Q E s t := by
  obtain ⟨mac, hm⟩ := Option.isSome_iff_exists.1 h.canRead.2
  simp only [ingressTag, twin_get_bind, hm, h.fills.ingressMac _ hm, twin_unwrap_bind, Option.some.injEq, forall_eq',
    twin_modify_bind, twin_pure]
  exact hQ _ _ _ ⟨{ h.fills with ingressMac := fun _ h => h }, ⟨h.canRead.1, rfl⟩, h.canWrite⟩ rfl

theorem readHeader_twin (h : Ready s t) (data : Bytes) {Q : Nat → ECIES c → ECIES c → Prop}
    {E : ECIES c → ECIES c → Prop} (hQ : ∀ size s' t', Ready s' t' → s'.bodySize = some size → Q size s' t')
    (hE : ∀ s' t', Ready s' t' → E s' t') : Twin (readHeader data) (readHeader data) Q E s t := by
  simp only [readHeader, twin_splitAt_bind, twin_unwrap_bind]
  intro _ header _ _ mac _
  refine twin_bind (ingressTag_twin h _ fun tag s₁ t₁ h₁ _ => ?_)
  simp only [twin_ite, twin_fail]
  split
  · exact hE _ _ h₁
  · refine twin_bind (decrypt_twin h₁ _ fun plain s₂ t₂ h₂ _ => ?_)
    simp only [twin_modify_bind, twin_pure]
    exact hQ _ _ _ (h₂.setSize _) rfl

theorem bodyLen_twin (h : Ready s t) {size : Nat} (hb : s.bodySize = some size) {Q : Nat → ECIES c → ECIES c → Prop}
    {E : ECIES c → ECIES c → Prop} (hQ : Q (paddedLen size + 16) s t) :
    Twin bodyLen bodyLen Q E s t :=
  (twin_of_run (run_bodyLen hb) (run_bodyLen (h.fills.bodySize _ hb))).2 hQ

theorem readBody_twin (h : Ready s t) (data : Bytes) (hb : s.bodySize.isSome) {Q : Bytes → ECIES c → ECIES c → Prop}
    {E : ECIES c → ECIES c → Prop} (hQ : ∀ out s' t', Ready s' t' → Q out s' t')
    (hE : ∀ s' t', Ready s' t' → s'.bodySize.isSome → E s' t') : Twin (readBody data) (readBody data) Q E s t := by
  obtain ⟨size, hb⟩ := Option.isSome_iff_exists.1 hb
  simp only [readBody, twin_sub_bind, twin_splitAt_bind, twin_unwrap_bind]
  intro _ _ mac _
  refine twin_bind (ingressTag_twin h _ fun tag s₁ t₁ h₁ hb₁ => ?_)
  rw [hb] at hb₁
  simp only [twin_ite, twin_fail]
  split
  · exact hE _ _ h₁ (by rw [hb₁]; rfl)
  · simp only [twin_get_bind, hb₁, h₁.fills.bodySize _ hb₁, twin_unwrap_bind, Option.some.injEq, forall_eq',
      twin_modify_bind]
    refine twin_bind (decrypt_twin (h₁.setSize none) _ fun out s₂ t₂ h₂ _ => ?_)
    simp only [twin_splitAt_bind, twin_pure]
    exact fun _ => hQ _ _ _ h₂

/-- A length that does not fit three bytes panics whatever is set. -/
theorem writeHeader_twin {half : Half} (h : Fills s t) (hw : s.Writes half) (size : Nat)
    {Q : Bytes → ECIES c → ECIES c → Prop} {E : ECIES c → ECIES c → Prop}
    (hQ : ∀ out half', Q out (s.withEgress half') (t.withEgress half')) :
    Twin (writeHeader size) (writeHeader size) Q E s t := by
  have hw' : t.Writes half := ⟨h.egressAes _ hw.1, h.egressMac _ hw.2⟩
  by_cases hs : size < 2 ^ 24
  · exact (twin_of_run (run_writeHeader hw hs) (run_writeHeader hw' hs)).2 (hQ _ _)
  · unfold writeHeader
    rw [if_neg hs]
    exact twin_crash_bind _ _ _ _ _ _

theorem writeBody_twin {half : Half} (h : Fills s t) (hw : s.Writes half) (data : Bytes)
    {Q : Bytes → ECIES c → ECIES c → Prop} {E : ECIES c → ECIES c → Prop}
    (hQ : ∀ out half', Q out (s.withEgress half') (t.withEgress half')) :
    Twin (writeBody data) (writeBody data) Q E s t :=
  have hw' : t.Writes half := ⟨h.egressAes _ hw.1, h.egressMac _ hw.2⟩
  (twin_of_run (run_writeBody hw data) (run_writeBody hw' data)).2 (hQ _ _)

end Frames

end ECIES

/-! ## The codec -/

/-- The first codec meets a condition, and the second is the first one with some of its unset optional fields set. -/
structure ECIESCodec.Under (P : ECIESCodec c → Prop) (s t : ECIESCodec c) : Prop where
  ecies : s.ecies.Fills t.ecies
  state : t.state = s.state
  holds : P s

/-- The same, with their buffer. -/
structure Decoding.Under (P : ECIESCodec c → Prop) (s t : Decoding c) : Prop where
  codec : s.codec.Under P t.codec
  buf : t.buf = s.buf

namespace ECIESCodec

section Twin

variable {e e' : ECIES c} {state : ECIESState} {buf : Bytes} {α : Type}

theorem inDecode_twin {x : Prog ECIESError (ECIES c) α} {Q : α → Decoding c → Decoding c → Prop}
    {E : Decoding c → Decoding c → Prop}
    (h : Twin x x (fun a f f' => Q a ⟨⟨f, state⟩, buf⟩ ⟨⟨f', state⟩, buf⟩)
      (fun f f' => E ⟨⟨f, state⟩, buf⟩ ⟨⟨f', state⟩, buf⟩) e e') :
    Twin (inDecode x) (inDecode x) Q E ⟨⟨e, state⟩, buf⟩ ⟨⟨e', state⟩, buf⟩ := twin_zoom h

theorem splitTo_twin {n : Nat} {Q : Bytes → Decoding c → Decoding c → Prop} {E : Decoding c → Decoding c → Prop}
    (h : n ≤ buf.length → Q (buf.take n) ⟨⟨e, state⟩, buf.drop n⟩ ⟨⟨e', state⟩, buf.drop n⟩) :
    Twin (splitTo n) (splitTo n) Q E ⟨⟨e, state⟩, buf⟩ ⟨⟨e', state⟩, buf⟩ := by
  unfold splitTo
  simp only [twin_get_bind, twin_splitAt_bind, twin_modify_bind, twin_pure]
  exact h

/-- A handshake message is read alike when its reader does. -/
theorem decodeHandshake_twin {read : Bytes → Prog ECIESError (ECIES c) Unit}
    {value : Prog IoError (Decoding c) IngressECIESValue}
    {Q : Option IngressECIESValue → Decoding c → Decoding c → Prop}
    (hwait : Q none ⟨⟨e, state⟩, buf⟩ ⟨⟨e', state⟩, buf⟩)
    (hread : ∀ data rest, Twin (read data) (read data) (fun _ f f' =>
      Twin value value (fun v => Q (some v)) (fun _ _ => True) ⟨⟨f, .header⟩, rest⟩ ⟨⟨f', .header⟩, rest⟩)
      (fun _ _ => True) e e') :
    Twin (decodeHandshake read value) (decodeHandshake read value) Q (fun _ _ => True) ⟨⟨e, state⟩, buf⟩
      ⟨⟨e', state⟩, buf⟩ := by
  unfold decodeHandshake
  simp only [twin_get_bind, twin_ite, twin_pure, hwait, if_true_left]
  intro _ _
  refine twin_bind (splitTo_twin fun _ => ?_)
  refine twin_bind (inDecode_twin (twin_mono (hread _ (buf.drop (announced buf + 2))) (fun _ f f' hv => ?_)
    fun _ _ _ => trivial))
  simp only [setState, twin_modify_bind]
  exact twin_bind (twin_mono hv (fun v s t h => (twin_pure _ _ _ _ _).2 h) fun _ _ h => h)

end Twin

/-- The auth message was read. -/
structure Authenticated (remoteId : PeerId) (codec : ECIESCodec c) : Prop where
  remoteId : codec.ecies.remoteId = some remoteId
  remotePublicKey : codec.ecies.remotePublicKey.isSome
  remoteNonce : codec.ecies.remoteNonce.isSome
  ephemeralSharedSecret : codec.ecies.ephemeralSharedSecret.isSome
  remoteInitMsg : codec.ecies.remoteInitMsg.isSome

/-- The session is established, in both directions. -/
structure Connected (codec : ECIESCodec c) : Prop where
  established : codec.Established
  canWrite : codec.ecies.CanWrite

/-- Both sides are set up, and the codec is at a frame. -/
theorem under_connected {e e' : ECIES c} {state : ECIESState} (h : e.Ready e')
    (hs : state = .header ∨ state = .body ∧ e.bodySize.isSome) : Under Connected ⟨e, state⟩ ⟨e', state⟩ :=
  ⟨h.fills, rfl, ⟨h.canRead.1, h.canRead.2, hs⟩, h.canWrite⟩

/-- What a server's codec is when it has decoded a value, or waits. -/
def OnAuth : Option IngressECIESValue → ECIESCodec c → Prop
  | some (.authReceive remoteId), codec => codec.Authenticated remoteId
  | some _, _ => False
  | none, codec => codec.state = .auth

/-- After the auth message is read the codec expects a header, and it lacks the MAC to read one until the ack is
written. -/
theorem decode_lacks {s : Decoding c} (hs : s.codec.state = .header) (hm : s.codec.ecies.ingressMac = none)
    (hl : ECIES.headerLen ≤ s.buf.length) : Lacks (Decoding.Under fun _ => True) decode s := by
  obtain ⟨⟨e, state⟩, buf⟩ := s
  obtain rfl : state = .header := hs
  have hlen : (buf.take ECIES.headerLen).length = ECIES.headerLen := by simpa using hl
  obtain ⟨hp, -⟩ := ECIES.readHeader_lacks hlen hm
  refine ⟨?_, ⟨⟨e.complete, .header⟩, buf⟩, ⟨⟨ECIES.fills_complete e, rfl, trivial⟩, rfl⟩, ?_⟩
  · unfold decode decodeHeader
    rw [panics_bind_ok (EStateM.run_get _)]
    dsimp only
    rw [panics_bind_ok (EStateM.run_get _), if_neg (Nat.not_lt.2 hl), panics_bind_ok (run_splitTo hl), panics_bind]
    exact .inl ((panics_zoom _ _ _ _ _).2 hp)
  · unfold decode
    rw [panics_bind_ok (EStateM.run_get _)]
    exact wp_not_panics (decodeHeader_safe ⟨by simp [ECIES.complete], by simp [ECIES.complete]⟩ rfl)

theorem decode_auth_twin {s t : Decoding c} (h : s.Under (·.state = .auth) t) :
    Twin decode decode (fun v s' t' => s'.Under (OnAuth v) t') (fun _ _ => True) s t := by
  obtain ⟨⟨e, state⟩, buf⟩ := s
  obtain ⟨⟨e', state'⟩, buf'⟩ := t
  obtain ⟨⟨hf, rfl, hs⟩, rfl⟩ := h
  obtain rfl : state' = .auth := hs
  unfold decode
  rw [twin_get_bind]
  refine decodeHandshake_twin ⟨⟨hf, rfl, rfl⟩, rfl⟩ fun data rest => ?_
  refine ECIES.readAuth_twin hf data fun remoteId pk ephemeral nonce => ?_
  simp only [twin_get_bind, ECIES.withAuth, twin_unwrap_bind, Option.some.injEq, forall_eq', twin_pure]
  refine ⟨⟨?_, rfl, ⟨rfl, rfl, rfl, rfl, rfl⟩⟩, rfl⟩
  exact { hf with
    remoteId := fun _ h => h
    remotePublicKey := fun _ h => h
    remoteNonce := fun _ h => h
    remoteEphemeralPublicKey := fun _ h => h
    ephemeralSharedSecret := fun _ hs => by rw [← hs, hf.ephemeralSecretKey]
    remoteInitMsg := fun _ h => h }

/-- The codec of a client that has sent the auth message. -/
structure AwaitsAck (codec : ECIESCodec c) : Prop where
  state : codec.state = .ack
  initMsg : codec.ecies.initMsg.isSome

/-- What a client's codec is when it has decoded a value, or waits. -/
def OnAck : Option IngressECIESValue → ECIESCodec c → Prop
  | some v, codec => v = .ack ∧ codec.Connected
  | none, codec => codec.AwaitsAck

theorem decode_ack_twin {s t : Decoding c} (h : s.Under AwaitsAck t) :
    Twin decode decode (fun v s' t' => s'.Under (OnAck v) t') (fun _ _ => True) s t := by
  obtain ⟨⟨e, state⟩, buf⟩ := s
  obtain ⟨⟨e', state'⟩, buf'⟩ := t
  obtain ⟨⟨hf, rfl, hs, hi⟩, rfl⟩ := h
  obtain rfl : state' = .ack := hs
  unfold decode
  rw [twin_get_bind]
  refine decodeHandshake_twin ⟨⟨hf, rfl, rfl, hi⟩, rfl⟩ fun data rest => ?_
  refine ECIES.readAck_twin hf data hi fun f f' hr => ?_
  rw [twin_pure]
  have hk := under_connected hr (.inl rfl)
  exact ⟨⟨hk.ecies, rfl, rfl, hk.holds⟩, rfl⟩

theorem decodeBody_twin {e e' : ECIES c} {buf : Bytes} (hr : e.Ready e') (hb : e.bodySize.isSome) :
    Twin decodeBody decodeBody (fun _ s' t' => s'.Under Connected t') (fun s' t' => s'.Under Connected t')
      ⟨⟨e, .body⟩, buf⟩ ⟨⟨e', .body⟩, buf⟩ := by
  obtain ⟨size, hsize⟩ := Option.isSome_iff_exists.1 hb
  refine twin_bind (inDecode_twin (ECIES.bodyLen_twin hr hsize ?_))
  simp only [twin_get_bind, twin_ite, twin_pure]
  split
  · exact ⟨under_connected hr (.inr ⟨rfl, hb⟩), rfl⟩
  · refine twin_bind (splitTo_twin fun _ => ?_)
    refine twin_bind (inDecode_twin (ECIES.readBody_twin hr _ hb (fun out f f' hf => ?_) fun f f' hf hb => ?_))
    · simp only [setState, twin_modify_bind, twin_pure]
      exact ⟨under_connected hf (.inl rfl), rfl⟩
    · exact ⟨under_connected hf (.inr ⟨rfl, hb⟩), rfl⟩

theorem decodeHeader_twin {e e' : ECIES c} {buf : Bytes} (hr : e.Ready e') :
    Twin decodeHeader decodeHeader (fun _ s' t' => s'.Under Connected t') (fun s' t' => s'.Under Connected t')
      ⟨⟨e, .header⟩, buf⟩ ⟨⟨e', .header⟩, buf⟩ := by
  unfold decodeHeader
  simp only [twin_get_bind, twin_ite, twin_pure]
  split
  · exact ⟨under_connected hr (.inl rfl), rfl⟩
  · refine twin_bind (splitTo_twin fun _ => ?_)
    refine twin_bind (inDecode_twin (ECIES.readHeader_twin hr _ (fun size f f' hf hb => ?_) fun f f' hf => ?_))
    · simp only [setState, twin_modify_bind]
      exact decodeBody_twin hf (by rw [hb]; rfl)
    · exact ⟨under_connected hf (.inl rfl), rfl⟩

/-- A session stays connected, also after an error. -/
theorem decode_connected_twin {s t : Decoding c} (h : s.Under Connected t) :
    Twin decode decode (fun _ s' t' => s'.Under Connected t') (fun s' t' => s'.Under Connected t') s t := by
  obtain ⟨⟨e, state⟩, buf⟩ := s
  obtain ⟨⟨e', state'⟩, buf'⟩ := t
  obtain ⟨⟨hf, rfl, ⟨ha, hm, hs⟩, hw⟩, rfl⟩ := h
  have hr : e.Ready e' := ⟨hf, ⟨ha, hm⟩, hw⟩
  unfold decode
  rw [twin_get_bind]
  rcases hs with hs | ⟨hs, hb⟩
  · obtain rfl : state' = .header := hs
    exact decodeHeader_twin hr
  · obtain rfl : state' = .body := hs
    exact decodeBody_twin hr hb

theorem inEncode_twin {e e' : ECIES c} {state : ECIESState} {α : Type} {x : Prog ECIESError (ECIES c) α}
    {Q : α → ECIESCodec c → ECIESCodec c → Prop} {E : ECIESCodec c → ECIESCodec c → Prop}
    (h : Twin x x (fun a f f' => Q a ⟨f, state⟩ ⟨f', state⟩) (fun f f' => E ⟨f, state⟩ ⟨f', state⟩) e e') :
    Twin (inEncode x) (inEncode x) Q E ⟨e, state⟩ ⟨e', state⟩ := twin_zoom h

theorem encode_auth_twin {s t : ECIESCodec c} (h : s.Under (·.ecies.remotePublicKey.isSome) t) (rng : ECIES.AuthRng c)
    {E : ECIESCodec c → ECIESCodec c → Prop} :
    Twin (encode (.auth rng)) (encode (.auth rng)) (fun _ s' t' => s'.Under AwaitsAck t') E s t := by
  unfold encode
  rw [twin_modify_bind]
  refine inEncode_twin (ECIES.writeAuth_twin h.ecies rng h.holds fun out => ?_)
  exact ⟨{ h.ecies with initMsg := fun _ h => h }, rfl, rfl, rfl⟩

theorem encode_ack_twin {s t : ECIESCodec c} {remoteId : PeerId} (h : s.Under (Authenticated remoteId) t)
    (rng : ECIES.EncryptRng c) {E : ECIESCodec c → ECIESCodec c → Prop} :
    Twin (encode (.ack rng)) (encode (.ack rng)) (fun _ s' t' => s'.Under Connected t') E s t := by
  unfold encode
  rw [twin_modify_bind]
  refine inEncode_twin (ECIES.writeAck_twin h.ecies rng h.holds.remotePublicKey h.holds.remoteNonce
    h.holds.ephemeralSharedSecret h.holds.remoteInitMsg fun out f f' hf => ?_)
  exact under_connected hf (.inl rfl)

theorem encode_message_twin {s t : ECIESCodec c} (h : s.Under Connected t) (data : Bytes)
    {E : ECIESCodec c → ECIESCodec c → Prop} :
    Twin (encode (.message data)) (encode (.message data)) (fun _ s' t' => s'.Under Connected t') E s t := by
  obtain ⟨e, state⟩ := s
  obtain ⟨e', state'⟩ := t
  obtain ⟨hf, rfl, hs⟩ := h
  obtain ⟨aes, ha⟩ := Option.isSome_iff_exists.1 hs.canWrite.1
  obtain ⟨mac, hm⟩ := Option.isSome_iff_exists.1 hs.canWrite.2
  have fills {f f' : ECIES c} (half : ECIES.Half) (h : f.Fills f') : (f.withEgress half).Fills (f'.withEgress half) :=
    { h with
      egressAes := fun _ h => h
      egressMac := fun _ h => h }
  unfold encode
  have hw : e.Writes ⟨aes, mac⟩ := ⟨ha, hm⟩
  refine twin_bind (inEncode_twin (ECIES.writeHeader_twin hf hw _ fun header half => ?_))
  refine twin_bind (inEncode_twin (ECIES.writeBody_twin (fills half hf) (ECIES.writes_withEgress _ _) _
    fun body half' => ?_))
  rw [twin_pure]
  exact ⟨fills _ (fills _ hf), rfl, ⟨hs.established.aes, hs.established.mac, hs.established.state⟩, ⟨rfl, rfl⟩⟩

end ECIESCodec

/-! ## The stream -/

namespace ECIESStream

/-- The streams agree, but for their decoding states, which are related. -/
structure Lift (R : Decoding c → Decoding c → Prop) (s t : ECIESStream c) : Prop where
  rest : t = { s with rx := t.rx }
  rx : R s.rx t.rx

section Twin

variable {s t : ECIESStream c}

/-- Sending a value takes the codec from one condition to another one. -/
theorem send_twin {P P' : ECIESCodec c → Prop} {value : EgressECIESValue c} (h : s.Lift (Decoding.Under P) t)
    {E : ECIESStream c → ECIESStream c → Prop}
    (hvalue : ∀ {k l : ECIESCodec c} {E}, k.Under P l →
      Twin (ECIESCodec.encode value) (ECIESCodec.encode value) (fun _ k' l' => k'.Under P' l') E k l) :
    Twin (send value) (send value) (fun _ s' t' => s'.Lift (Decoding.Under P') t') E s t := by
  obtain ⟨ht, hk, hb⟩ := h
  rw [ht]
  refine twin_bind (twin_zoom (twin_mono (hvalue hk) (fun out k l hk => ?_) fun _ _ h => h))
  rw [twin_modify]
  exact ⟨rfl, hk, hb⟩

/-- The value that a poll has returned. -/
def polled : Poll (Option IngressECIESValue) → Option IngressECIESValue
  | .pending => none
  | .ready v => v

section Poll

variable {P : Option IngressECIESValue → ECIESCodec c → Prop} {E : Decoding c → Decoding c → Prop}
  (hdecode : ∀ {s t : Decoding c}, s.Under (P none) t →
    Twin ECIESCodec.decode ECIESCodec.decode (fun v s' t' => s'.Under (P v) t') E s t)
  (hE : ∀ {s t : Decoding c}, s.Under (P none) t → E s t)

include hdecode

theorem inStream_decode_twin (h : s.Lift (Decoding.Under (P none)) t) :
    Twin (inStream ECIESCodec.decode) (inStream ECIESCodec.decode) (fun v s' t' => s'.Lift (Decoding.Under (P v)) t')
      (Lift E) s t := by
  obtain ⟨ht, hrx⟩ := h
  rw [ht]
  exact twin_zoom (twin_mono (hdecode hrx) (fun v s' t' h => ⟨rfl, h⟩) fun s' t' h => ⟨rfl, h⟩)

include hE

theorem pollDecode_twin (h : s.Lift (Decoding.Under (P none)) t) :
    Twin pollDecode pollDecode (fun v s' t' => s'.Lift (Decoding.Under (P v.join)) t') (Lift E) s t := by
  have hreadable : t.readable = s.readable := by rw [h.rest]
  have heof : t.eof = s.eof := by rw [h.rest]
  unfold pollDecode
  simp only [twin_get_bind, hreadable, heof, twin_ite, twin_pure, Option.join_none, h]
  split
  · split
    · unfold decodeEof
      rw [bind_assoc]
      refine twin_bind (twin_mono (inStream_decode_twin hdecode h) (fun v s' t' h' => ?_) fun _ _ h => h)
      cases v with
      | some v => exact .ok h'
      | none =>
        simp only [bind_assoc, twin_get_bind, h'.rx.buf]
        split
        · exact .ok h'
        · exact .fail ⟨h'.rest, hE h'.rx⟩
    · refine twin_bind (twin_mono (inStream_decode_twin hdecode h) (fun v s' t' h' => ?_) fun _ _ h => h)
      cases v with
      | some v => exact .ok h'
      | none =>
        simp only [twin_modify_bind, twin_pure, Option.join_none]
        exact ⟨by rw [h'.rest], h'.rx⟩
  · trivial

/-- **Polling the framed transport** goes alike, when decoding does. -/
theorem pollFramed_twin : ∀ (reads : List Bytes) {s t : ECIESStream c}, s.Lift (Decoding.Under (P none)) t →
    Twin (pollFramed reads) (pollFramed reads) (fun r s' t' => s'.Lift (Decoding.Under (P (polled r))) t') (Lift E) s t
  | [], s, t, h => by
    refine twin_bind (twin_mono (pollDecode_twin hdecode hE h) (fun v s' t' h' => ?_) fun _ _ h => h)
    cases v with
    | some v => exact .ok h'
    | none => exact .ok h'
  | read :: rest, s, t, h => by
    refine twin_bind (twin_mono (pollDecode_twin hdecode hE h) (fun v s' t' h' => ?_) fun _ _ h => h)
    cases v with
    | some v => exact .ok h'
    | none =>
      simp only [twin_modify_bind]
      refine pollFramed_twin rest ⟨?_, h'.rx.codec, ?_⟩
      · rw [h'.rest]
      · simp only [h'.rx.buf]

end Poll

/-- A session stays connected when it is polled. -/
theorem pollNext_twin (h : s.Lift (Decoding.Under ECIESCodec.Connected) t) :
    Twin pollNext pollNext (fun _ s' t' => s'.Lift (Decoding.Under ECIESCodec.Connected) t')
      (Lift (Decoding.Under ECIESCodec.Connected)) s t := by
  have hreads : t.reads = s.reads := by rw [h.rest]
  have hp := pollFramed_twin (P := fun _ => ECIESCodec.Connected) ECIESCodec.decode_connected_twin id s.reads h
  simp only [Twin, pollNext, EStateM.run, hreads] at hp ⊢
  generalize pollFramed s.reads s = r, pollFramed s.reads t = r' at hp
  cases hp with
  | @ok a _ _ h =>
    rcases a with _ | _ | ⟨_ | _ | _⟩
    · exact .ok h
    · exact .ok h
    · exact .fail h
    · exact .fail h
    · exact .ok h
  | fail h => exact .fail h
  | panic => exact .panic

end Twin

end ECIESStream

/-! ## The connection -/

namespace Connection

/-- What holds of the codec where a future goes on, and of the codec of a stream. -/
def Stage.Holds : Stage c → ECIESCodec c → Prop
  | .sendAuth _, codec => codec.ecies.remotePublicKey.isSome
  | .receiveAck, codec => codec.AwaitsAck
  | .receiveAuth _, codec => codec.state = .auth
  | .sendAck remoteId _, codec => codec.Authenticated remoteId
  | .stream, codec => codec.Connected

/-- The fields that the next operations need are set. -/
def Typestate (k : Connection c) : Prop := k.stage.Holds k.stream.rx.codec

/-- The connection with another state of the algorithm. -/
def withEcies (k : Connection c) (e : ECIES c) : Connection c :=
  { k with stream := { k.stream with rx := { k.stream.rx with codec := { k.stream.rx.codec with ecies := e } } } }

/-- The second connection is the first one with some of its unset optional fields set. -/
def Fills (k l : Connection c) : Prop := ∃ e, k.stream.rx.codec.ecies.Fills e ∧ l = k.withEcies e

/-- The first connection has its typestate, and the second is the first one, filled. -/
structure Joint (k l : Connection c) : Prop where
  stage : l.stage = k.stage
  stream : k.stream.Lift (Decoding.Under k.stage.Holds) l.stream

theorem Fills.joint {k l : Connection c} (h : k.Fills l) (hk : k.Typestate) : k.Joint l := by
  obtain ⟨e, he, rfl⟩ := h
  exact ⟨rfl, rfl, ⟨he, rfl, hk⟩, rfl⟩

theorem Joint.typestate {k l : Connection c} (h : k.Joint l) : k.Typestate := h.stream.rx.codec.holds

theorem inStream_twin {stage : Stage c} {s t : ECIESStream c} {α : Type} {x : Prog IoError (ECIESStream c) α}
    {Q : α → Connection c → Connection c → Prop} {E : Connection c → Connection c → Prop}
    (h : Twin x x (fun a s' t' => Q a ⟨stage, s'⟩ ⟨stage, t'⟩) (fun s' t' => E ⟨stage, s'⟩ ⟨stage, t'⟩) s t) :
    Twin (inStream x) (inStream x) Q E ⟨stage, s⟩ ⟨stage, t⟩ := twin_zoom h

/-- **A future goes on alike**, and to the typestate of where it goes on next. -/
theorem resume_twin {k l : Connection c} (h : k.Joint l) :
    Twin resume resume (fun _ k' l' => k'.Joint l') (fun _ _ => True) k l := by
  obtain ⟨stage, s⟩ := k
  obtain ⟨stage', t⟩ := l
  obtain ⟨rfl, h⟩ := h
  have h : s.Lift (Decoding.Under stage'.Holds) t := h
  have hreads : t.reads = s.reads := by rw [h.rest]
  unfold resume
  rw [twin_get_bind]
  cases stage' with
  | sendAuth rng =>
    refine twin_bind (inStream_twin (twin_mono (ECIESStream.send_twin (E := fun _ _ => True) h fun hk =>
      ECIESCodec.encode_auth_twin hk rng) (fun _ s' t' h' => ?_) fun _ _ _ => trivial))
    exact (twin_modify _ _ _ _ _ _).2 ⟨rfl, h'⟩
  | receiveAck =>
    simp only [hreads]
    refine twin_bind (inStream_twin (twin_mono (ECIESStream.pollFramed_twin (P := ECIESCodec.OnAck)
      ECIESCodec.decode_ack_twin (fun _ => trivial) _ h) (fun r s' t' h' => ?_) fun _ _ _ => trivial))
    cases r with
    | pending => exact .ok ⟨rfl, h'⟩
    | ready ack =>
      simp only [twin_ite, twin_modify, twin_fail]
      split
      · rename_i hack
        subst hack
        exact ⟨rfl, h'.rest, ⟨h'.rx.codec.ecies, h'.rx.codec.state, h'.rx.codec.holds.2⟩, h'.rx.buf⟩
      · trivial
  | receiveAuth rng =>
    simp only [hreads]
    refine twin_bind (inStream_twin (twin_mono (ECIESStream.pollFramed_twin (P := ECIESCodec.OnAuth)
      ECIESCodec.decode_auth_twin (fun _ => trivial) _ h) (fun r s' t' h' => ?_) fun _ _ _ => trivial))
    rcases r with _ | _ | ⟨_ | _ | _⟩
    · exact .ok ⟨rfl, h'⟩
    · exact .fail trivial
    · exact .ok ⟨rfl, h'⟩
    · exact .fail trivial
    · exact .fail trivial
  | sendAck remoteId rng =>
    refine twin_bind (inStream_twin (twin_mono (ECIESStream.send_twin (E := fun _ _ => True) h fun hk =>
      ECIESCodec.encode_ack_twin hk rng) (fun _ s' t' h' => ?_) fun _ _ _ => trivial))
    exact (twin_modify _ _ _ _ _ _).2 ⟨rfl, by rw [h'.rest], h'.rx⟩
  | stream => exact .ok ⟨rfl, h⟩

theorem stage_eq_of_isOpen {k : Connection c} (h : k.isOpen = true) : k.stage = .stream := by
  unfold isOpen at h
  split at h
  · assumption
  · cases h

/-- An operation on a returned stream goes alike, and keeps its typestate after an error too. -/
theorem stream_twin {k l : Connection c} (h : k.Joint l) (ho : k.isOpen = true)
    {x : Prog IoError (ECIESStream c) Unit}
    (hx : ∀ {s t : ECIESStream c}, s.Lift (Decoding.Under ECIESCodec.Connected) t →
      Twin x x (fun _ s' t' => s'.Lift (Decoding.Under ECIESCodec.Connected) t')
        (ECIESStream.Lift (Decoding.Under ECIESCodec.Connected)) s t) :
    Twin (inStream x) (inStream x) (fun _ k' l' => k'.Joint l') Joint k l := by
  obtain ⟨stage, s⟩ := k
  obtain ⟨stage', t⟩ := l
  obtain ⟨rfl, h⟩ := h
  obtain rfl : stage' = .stream := stage_eq_of_isOpen ho
  exact inStream_twin (twin_mono (hx h) (fun _ _ _ h => ⟨rfl, h⟩) fun _ _ h => ⟨rfl, h⟩)

/-- **Every operation goes alike** with more of the optional fields set, and keeps the typestate; so does the error of
a returned stream. -/
theorem perform_twin {k l : Connection c} (h : k.Joint l) {o : Op} (ho : k.Allows o) :
    Twin (perform o) (perform o) (fun _ k' l' => k'.Joint l') (fun k' l' => k.isOpen = true → k'.Joint l') k l := by
  cases o with
  | arrive read =>
    simp only [perform, twin_modify]
    exact ⟨h.stage, by rw [h.stream.rest], h.stream.rx⟩
  | resume =>
    refine twin_mono (resume_twin h) (fun _ _ _ h => h) fun _ _ _ hopen => ?_
    exact absurd hopen (by rw [show k.isOpen = false from ho]; decide)
  | pollNext =>
    refine twin_mono (stream_twin h ho fun hs => ?_) (fun _ _ _ h => h) fun _ _ h _ => h
    exact twin_bind (twin_mono (ECIESStream.pollNext_twin hs) (fun _ _ _ h => .ok h) fun _ _ h => h)
  | startSend item =>
    refine twin_mono (stream_twin h ho fun hs => ?_) (fun _ _ _ h => h) fun _ _ h _ => h
    rw [ECIESStream.startSend_eq]
    exact ECIESStream.send_twin hs fun hk => ECIESCodec.encode_message_twin hk item

theorem Starts.typestate {k : Connection c} (h : Starts k) : k.Typestate := by
  cases h with
  | incoming => rfl
  | @connect secretKey remoteId nonce ephemeralSecretKey rng _ h =>
    unfold Connection.connect ECIESCodec.newClient ECIES.newStaticClient at h
    cases hpk : id2pk (c := c) remoteId with
    | error e =>
      rw [hpk] at h
      cases h
    | ok pk =>
      rw [hpk] at h
      cases h
      rfl

theorem Fills.refl (k : Connection c) : k.Fills k := ⟨_, ECIES.Fills.refl _, rfl⟩

theorem step_typestate (k : Connection c) (o : Op) (k' : Connection c) (hk : k.Typestate) (h : step k o = some k') :
    k'.Typestate := by
  unfold step at h
  split at h
  · rename_i ho
    have hp := perform_twin ((Fills.refl k).joint hk) ho
    unfold Twin at hp
    generalize hr : (perform o).run k = r at h hp
    cases hp with
    | ok hj =>
      cases h
      exact hj.typestate
    | fail hj =>
      dsimp only at h
      split at h
      · rename_i hopen
        cases h
        exact (hj hopen).typestate
      · cases h
    | panic => cases h
  · cases h

/-- **The typestate of a connection.** Wherever a run of `connect` or of `incoming` and of the stream after it leads,
the fields that the next operations need are set, and no operation meets an unset one: it does not panic where it
would not with more of them set. -/
theorem handshake_typestate {start k : Connection c} (hstart : Starts start) (ops : List Op)
    (hrun : Runs.run step start ops = some k) {o : Op} (ho : k.Allows o) :
    k.Typestate ∧ ¬Lacks Fills (perform o) k := by
  have hk : k.Typestate := Runs.invariant step_typestate ops hstart.typestate hrun
  exact ⟨hk, not_lacks fun l hl => perform_twin (hl.joint hk) ho⟩

/-- The stream that a server returns to a client can be polled; the codec could not read a header before the server has
written its ack message. -/
theorem server_polls_safely : ∃ k : Connection Software.crates,
    Runs.run step (incoming Software.serverKey ECIES.exampleParties.serverNonce Software.serverEphemeralKey
      ECIES.exampleParties.ackRng) [.arrive (ECIES.authMsg ECIES.exampleParties), .resume, .resume] = some k ∧
    k.isOpen = true ∧ k.Typestate ∧ ¬Lacks Fills (perform .pollNext) k ∧
    Lacks (Decoding.Under fun _ => True) ECIESCodec.decode
      ⟨⟨ECIES.authedServer ECIES.exampleParties, .header⟩, List.replicate 32 0⟩ := by
  have hrun := incoming_opens Software.secpLaws Rlp.standard_lawful ECIES.exampleParties
  obtain ⟨hstate, hlacks⟩ := handshake_typestate (.incoming _ _ _ _) _ hrun (o := .pollNext) rfl
  exact ⟨_, hrun, rfl, hstate, hlacks, ECIESCodec.decode_lacks rfl rfl (by decide)⟩

end Connection

end EthereumSentry
