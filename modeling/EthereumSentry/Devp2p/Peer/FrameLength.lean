import EthereumSentry.Devp2p.Ecies.Frames
import EthereumSentry.Devp2p.Peer.Mux

/-!
# The length of a frame

`start_send` hands the message id and the payload to the ECIES stream, whose header has three bytes for their length.
Nothing on the way looks at the length: a message that takes `2 ^ 24` bytes panics in `write_header`, and a payload
above the receiver's limit is sent when it compresses well. So a message is refused without a trace, or sent in a frame
that says its length and that the receiver does not find too large, exactly when it `Fits` (`startSend_whole`).
-/

set_option autoImplicit false

namespace EthereumSentry

variable {c : Crates}

open ECIES

/-! ## The header of a frame -/

namespace ECIES

/-- What a receiver with the cipher of the half finds in the bytes of a frame: its header says the length of the body
that follows. -/
structure Framed (c : Crates) (h : Half) (body out : Bytes) : Prop where
  length : ofBe ((h.aes.apply c (out.take 16)).take 3) = body.length
  body : out.drop headerLen = (h.afterHeader c body.length).bodyBytes c body

/-- Three bytes say a length below `2 ^ 24`. -/
theorem framed_frame (h : Half) {body : Bytes} (hs : body.length < 2 ^ 24) : Framed c h body (h.frame c body) where
  length := by
    have htake : (h.frame c body).take 16 = (h.header c body.length).bytes := by
      rw [Half.frame, Half.headerBytes, List.append_assoc, List.take_left' (FixedBytes.length_bytes _)]
    rw [htake, Half.header, Aes256Ctr.apply_apply, headerPlain, List.append_assoc, List.take_left' (length_be 3 _),
      ofBe_be (by simpa using hs)]
  body := by
    rw [Half.frame, List.drop_left' (Half.length_headerBytes c h body.length)]

/-- `write_uint` asserts that the length fits three bytes. -/
theorem wp_writeHeader_long {s : ECIES c} {size : Nat} (hs : 2 ^ 24 ≤ size) {Q : Bytes → ECIES c → Prop}
    {E : ECIES c → Prop} : ¬Prog.wp (writeHeader size) Q E s := by
  simp only [writeHeader, Prog.wp_bind, if_neg (Nat.not_lt.2 hs), Prog.wp_crash, not_false_eq_true]

end ECIES

namespace ECIESStream

/-- **`start_send` of the ECIES stream** panics on `2 ^ 24` bytes and more, and sends a frame for less. -/
theorem wp_startSend {s : ECIESStream c} {h : Half} (hw : s.rx.codec.ecies.Writes h) (item : Bytes)
    {Q : Unit → ECIESStream c → Prop} {E : ECIESStream c → Prop} :
    Prog.wp (startSend item) Q E s ↔ item.length < 2 ^ 24 ∧
      Q () { s with
        rx := { s.rx with codec := { s.rx.codec with ecies := s.rx.codec.ecies.withEgress (h.next c item) } }
        written := s.written ++ h.frame c item } := by
  simp only [startSend, Prog.wp_bind, Prog.wp_zoom, Prog.wp_modify]
  by_cases hs : item.length < 2 ^ 24
  · rw [Prog.wp_of_run (ECIESCodec.run_encode_message hw hs), and_iff_right hs]
  · refine iff_of_false ?_ fun h => hs h.1
    simp only [ECIESCodec.encode, ECIESCodec.inEncode, Prog.wp_bind, Prog.wp_zoom]
    exact wp_writeHeader_long (Nat.not_lt.1 hs)

end ECIESStream

namespace PeerStream

variable {S : Type}

/-! ## What is handed to the transport -/

/-- The message id and the payload that a message is sent with; nothing when the remote does not support it. -/
def onWire (c : Crates) (caps : List CapabilityInfo) : PeerMessage → Option (Nat × Bytes)
  | .disconnect reason => some (0x01, c.rlp.encodeUint reason.toU8)
  | .ping => some (0x02, emptyListRlp)
  | .pong => some (0x03, emptyListRlp)
  | .subprotocol ⟨capName, ⟨id, data⟩⟩ =>
    match caps.find? (·.name = capName) with
    | none => none
    | some cap =>
      if cap.length ≤ id then none
      else some (0x10 + totalLength (caps.takeWhile (·.name ≠ capName)) + id, data)

/-- The stream after `toWire`: a `Disconnect` closes it. -/
def afterWire (s : PeerStream S) : PeerMessage → PeerStream S
  | .disconnect _ => { s with disconnected := true }
  | _ => s

@[simp] theorem stream_afterWire (s : PeerStream S) (m : PeerMessage) : (s.afterWire m).stream = s.stream := by
  cases m <;> rfl

@[simp] theorem snappy_afterWire (s : PeerStream S) (m : PeerMessage) : (s.afterWire m).snappy = s.snappy := by
  cases m <;> rfl

/-- The lengths before a capability are added up, and the sum must fit. -/
theorem wp_addLengths {cap : CapabilityInfo} {after : List CapabilityInfo} {Q : Nat → PeerStream S → Prop}
    {E : PeerStream S → Prop} {s : PeerStream S} : ∀ {before : List CapabilityInfo} {m : Nat}, cap ∉ before →
    m < usizeBound →
    (Prog.wp (addLengths cap (before ++ cap :: after) m) Q E s ↔
      m + totalLength before < usizeBound ∧ Q (m + totalLength before) s)
  | before, m, hmem, hm => by
    by_cases hlt : m + totalLength before < usizeBound
    · rw [Prog.wp_of_run (run_addLengths after s hmem hlt), and_iff_right hlt]
    · refine iff_of_false (fun h => Prog.wp_not_panics h ⟨s, ?_⟩) fun h => hlt h.1
      exact run_addLengths_crash after s hmem hm (Nat.not_lt.1 hlt)

/-- **What `toWire` returns.** It panics when the message id does not fit. -/
theorem wp_toWire {s : PeerStream S} (m : PeerMessage) {Q : Option (Nat × Bytes) → PeerStream S → Prop}
    {E : PeerStream S → Prop} :
    Prog.wp (toWire c m) Q E s ↔
      match onWire c s.sharedCapabilities m with
      | none => Q none s
      | some (id, payload) => id < usizeBound ∧ Q (some (id, payload)) (s.afterWire m) := by
  cases m with
  | disconnect reason => exact (and_iff_right (by decide)).symm
  | ping => exact (and_iff_right (by decide)).symm
  | pong => exact (and_iff_right (by decide)).symm
  | subprotocol m =>
    obtain ⟨capName, id, data⟩ := m
    simp only [toWire, onWire, Prog.wp_bind, Prog.wp_get]
    cases hfind : s.sharedCapabilities.find? (·.name = capName) with
    | none => rfl
    | some cap =>
      by_cases hid : cap.length ≤ id
      · simp only [hid, ↓reduceIte, Prog.wp_pure]
      · simp only [hid, ↓reduceIte, Prog.wp_bind]
        obtain ⟨hname, before, after, hcaps, hbefore⟩ := List.find?_eq_some_iff_append.1 hfind
        simp only [decide_eq_true_eq] at hname
        have hne : ∀ d ∈ before, d.name ≠ capName := fun d hd => by simpa using hbefore d hd
        have hmem : cap ∉ before := fun h => hne cap h hname
        -- the capabilities before the first one with the name
        have htake : s.sharedCapabilities.takeWhile (·.name ≠ capName) = before := by
          rw [hcaps, List.takeWhile_append_of_pos (by simpa using hne), List.takeWhile_cons_of_neg (by simp [hname]),
            List.append_nil]
        rw [htake, hcaps, wp_addLengths hmem (by decide)]
        simp only [Prog.wp_bind, Prog.wp_add, Prog.wp_pure, afterWire]
        constructor
        · exact fun h => h.2
        · exact fun h => ⟨by omega, h⟩

/-- The payload is compressed, which panics when `snap` refuses it. -/
theorem wp_writePayload {s : PeerStream S} (payload : Bytes) {Q : Bytes → PeerStream S → Prop}
    {E : PeerStream S → Prop} : Prog.wp (writePayload c payload) Q E s ↔
      ∃ z, wirePayload c s.snappy payload = some z ∧ Q z s := by
  simp only [writePayload, wirePayload, Prog.wp_bind, Prog.wp_get, Prog.wp_ite]
  cases s.snappy with
  | true =>
    simp only [↓reduceIte, Prog.wp_unwrapExcept]
    cases c.compress payload (c.maxCompressLen payload.length) <;> simp [Except.toOption]
  | false => simp

/-! ## The receiver -/

/-- The receiver's error about a payload of this size. -/
def oversized (size : Nat) : IoError :=
  .invalidInput s!"payload size ({size}) exceeds limit ({maxPayloadSize} bytes)"

/-- The receiver finds the payload of a frame too large. -/
def TooLarge (c : Crates) (rx : PeerStream S) (frame : Bytes) : Prop :=
  ∃ size rx', (onFrame c frame).run rx = .error (.err (oversized size)) rx'

/-- After the payload, nothing fails with the error about its size. -/
theorem readReserved_sized (messageId : Nat) (data : Bytes) (s s' : PeerStream S) (size : Nat) :
    (readReserved c messageId data).run s ≠ .error (.err (oversized size)) s' := by
  unfold readReserved
  split
  · rw [Prog.run_bind_ok (EStateM.run_modify _ _)]
    cases readReason c data with
    | some reason => exact nofun
    | none => exact nofun
  all_goals exact nofun

theorem readSubprotocol_sized (messageId : Nat) (data : Bytes) (s s' : PeerStream S) (size : Nat) :
    (readSubprotocol messageId data).run s ≠ .error (.err (oversized size)) s' := by
  unfold readSubprotocol
  rw [Prog.run_bind_ok (EStateM.run_get s)]
  by_cases h : 0x10 ≤ messageId
  · rw [Prog.run_bind_ok (Prog.run_sub h s)]
    dsimp only
    split
    · exact nofun
    · rename_i hl
      rw [List.getElem?_eq_getElem (Nat.not_le.1 hl)]
      exact nofun
  · rw [Prog.run_bind_err (Prog.run_sub_crash (Nat.not_le.1 h) s)]
    exact nofun

/-- A payload that was compressed is too large exactly when it is above the limit. -/
theorem run_readPayload_large (hz : c.SnapLaws) {s : PeerStream S} {data out : Bytes} (id : UInt8)
    (hs : s.snappy = true) (hd : maxPayloadSize < data.length) (h : wirePayload c true data = some out) :
    (readPayload c (id :: out)).run s = .error (.err (oversized data.length)) s := by
  unfold readPayload wirePayload at *
  rw [Prog.run_bind_ok (EStateM.run_get s), Prog.run_bind_ok (Prog.run_sliceFrom (by simp) s)]
  simp only [List.drop_succ_cons, List.drop_zero, hs, ↓reduceIte] at h ⊢
  cases hc : c.compress data (c.maxCompressLen data.length) with
  | error e => rw [hc] at h; cases h
  | ok z =>
    rw [hc] at h
    cases h
    rw [hz.decompressLen_compress _ _ _ hc, Prog.run_bind_ok (Prog.run_ofExcept_ok _ _ s), if_pos hd]
    rfl

/-- **What the receiver finds too large**: with compression, a payload above the limit after a message id of one byte.
A longer message id is refused before the payload is looked at. -/
theorem tooLarge_iff (hr : c.rlp.Lawful) (hz : c.SnapLaws) {rx : PeerStream S} {messageId : Nat} {data out : Bytes}
    (h₁ : 0 < messageId) (h₂ : messageId < usizeBound) (h : wirePayload c rx.snappy data = some out) :
    TooLarge c rx (c.rlp.encodeUint messageId ++ out) ↔
      rx.snappy = true ∧ messageId < 0x80 ∧ maxPayloadSize < data.length := by
  unfold TooLarge
  by_cases hid : messageId < 0x80
  swap
  · obtain ⟨msg, hrun⟩ := run_onFrame_large hr rx out (Nat.not_lt.1 hid) h₂
    refine iff_of_false ?_ fun h => hid h.2.1
    rintro ⟨size, rx', he⟩
    rw [hrun] at he
    cases he
  rw [run_onFrame_small hr rx out h₁ hid]
  by_cases hlarge : rx.snappy = true ∧ maxPayloadSize < data.length
  · obtain ⟨hs, hd⟩ := hlarge
    rw [hs] at h
    rw [Prog.run_bind_err (run_readPayload_large hz _ hs hd h)]
    exact iff_of_true ⟨data.length, rx, rfl⟩ ⟨hs, hid, hd⟩
  · have hd : rx.snappy = true → data.length ≤ maxPayloadSize := fun hs => Nat.not_lt.1 fun hd => hlarge ⟨hs, hd⟩
    rw [Prog.run_bind_ok (run_readPayload hz _ hd h)]
    refine iff_of_false ?_ fun h => hlarge ⟨h.1, h.2.2⟩
    rintro ⟨size, rx', he⟩
    split at he
    · exact readReserved_sized _ _ _ _ _ he
    · exact readSubprotocol_sized _ _ _ _ _ he

/-! ## The sender -/

theorem wp_startSend {F : Frames S} {tx : PeerStream S} (m : PeerMessage) {Q : Unit → PeerStream S → Prop}
    {E : PeerStream S → Prop} :
    Prog.wp (startSend c F m) Q E tx ↔
      if tx.disconnected then E tx
      else match onWire c tx.sharedCapabilities m with
      | none => Q () tx
      | some (id, payload) => id < usizeBound ∧ ∃ z, wirePayload c tx.snappy payload = some z ∧
          Prog.wp (F.startSend (c.rlp.encodeUint id ++ z)) (fun _ t => Q () { tx.afterWire m with stream := t })
            (fun t => E { tx.afterWire m with stream := t }) tx.stream := by
  simp only [startSend, Prog.wp_bind, Prog.wp_get, Prog.wp_ite, Prog.wp_fail, wp_toWire]
  cases onWire c tx.sharedCapabilities m with
  | none => rfl
  | some w => simp only [wp_writePayload, inStream, Prog.wp_zoom, snappy_afterWire, stream_afterWire]

/-- What is handed to the transport: the message id and the payload, compressed. -/
def frameBody (c : Crates) (tx : PeerStream S) (m : PeerMessage) : Option Bytes := do
  let (id, payload) ← onWire c tx.sharedCapabilities m
  let z ← wirePayload c tx.snappy payload
  some (c.rlp.encodeUint id ++ z)

/-- The message is sent whole, or not at all: `start_send` does not panic; when it fails, the egress half is as it was;
and when it returns, it gave the message up, or it wrote a frame that says the length of its body and that no receiver
finds too large. -/
def SendsWhole (c : Crates) (tx : PeerStream (ECIESStream c)) (h : Half) (m : PeerMessage) : Prop :=
  Prog.wp (startSend c (ECIESStream.frames c) m)
    (fun _ tx' => tx' = tx ∧ onWire c tx.sharedCapabilities m = none ∨
      ∃ body out, frameBody c tx m = some body ∧ tx'.stream.written = tx.stream.written ++ out ∧
        Framed c h body out ∧ ∀ rx : PeerStream (ECIESStream c), rx.snappy = tx.snappy → ¬TooLarge c rx body)
    (fun tx' => tx'.stream.rx.codec.ecies.Writes h) tx

/-- The message takes less than `2 ^ 24` bytes, and its payload is within the receiver's limit when it is compressed. -/
def Fits (c : Crates) (tx : PeerStream S) (m : PeerMessage) : Prop :=
  tx.disconnected = true ∨ ∀ id payload, onWire c tx.sharedCapabilities m = some (id, payload) →
    id < usizeBound ∧
      (∃ z, wirePayload c tx.snappy payload = some z ∧ (c.rlp.encodeUint id ++ z).length < 2 ^ 24) ∧
      (tx.snappy = true → id < 0x80 → payload.length ≤ maxPayloadSize)

theorem onWire_pos {caps : List CapabilityInfo} {m : PeerMessage} {id : Nat} {payload : Bytes}
    (h : onWire c caps m = some (id, payload)) : 0 < id := by
  cases m with
  | disconnect reason => cases h; decide
  | ping => cases h; decide
  | pong => cases h; decide
  | subprotocol m =>
    obtain ⟨capName, id', data⟩ := m
    simp only [onWire] at h
    split at h
    · cases h
    · split at h
      · cases h
      · cases h
        omega

/-- **A message is sent whole or not at all** exactly when it fits. -/
theorem startSend_whole (hr : c.rlp.Lawful) (hz : c.SnapLaws) {tx : PeerStream (ECIESStream c)} {h : Half}
    (hw : tx.stream.rx.codec.ecies.Writes h) (m : PeerMessage) : SendsWhole c tx h m ↔ Fits c tx m := by
  unfold SendsWhole Fits
  rw [wp_startSend]
  by_cases hd : tx.disconnected = true
  · rw [if_pos hd]
    exact iff_of_true hw (.inl hd)
  rw [if_neg hd, or_iff_right hd]
  cases hwire : onWire c tx.sharedCapabilities m with
  | none => simp
  | some w =>
    obtain ⟨id, payload⟩ := w
    have hpos := onWire_pos hwire
    have hbody : ∀ z, wirePayload c tx.snappy payload = some z →
        frameBody c tx m = some (c.rlp.encodeUint id ++ z) := fun z hz => by
      simp only [frameBody, hwire, hz, Option.bind_eq_bind, Option.bind_some]
    simp only [ECIESStream.frames, ECIESStream.wp_startSend hw, reduceCtorEq, and_false, false_or, Option.some.injEq,
      Prod.mk.injEq]
    constructor
    · rintro ⟨hid, z, hz', hlen, body, out, hb, hout, -, hsize⟩ id' payload' ⟨rfl, rfl⟩
      rw [hbody z hz'] at hb
      cases hb
      refine ⟨hid, ⟨z, hz', hlen⟩, fun hs hsmall => Nat.not_lt.1 fun hlarge => ?_⟩
      exact hsize tx rfl ((tooLarge_iff hr hz hpos hid hz').2 ⟨hs, hsmall, hlarge⟩)
    · intro hfits
      obtain ⟨hid, ⟨z, hz', hlen⟩, hsize⟩ := hfits id payload ⟨rfl, rfl⟩
      refine ⟨hid, z, hz', hlen, _, _, hbody z hz', rfl, framed_frame h hlen, fun rx hrx hlarge => ?_⟩
      obtain ⟨hs, hsmall, hgt⟩ := (tooLarge_iff hr hz hpos hid (by rw [hrx]; exact hz')).1 hlarge
      exact absurd (hsize (hrx ▸ hs) hsmall) (Nat.not_le.2 hgt)

section Example

open Software

/-- The egress half of the client. -/
def exampleHalf : Half :=
  ⟨Aes256Ctr.new (aesSecret crates (ephemeralSecret exampleParties)
      (nonceHash crates exampleParties.serverNonce exampleParties.clientNonce)) (FixedBytes.zero 16),
    initialMac (macSecret crates (ephemeralSecret exampleParties)
      (nonceHash crates exampleParties.serverNonce exampleParties.clientNonce)) exampleParties.serverNonce
      (authMsg exampleParties)⟩

/-- The client, connected with both capabilities. -/
def exampleClient (snappy : Bool) : PeerStream (ECIESStream crates) where
  stream := ⟨⟨⟨sessionClient exampleParties, .header⟩, []⟩, [], false, false, [],
    pk2id (crates.fromSecretKey serverKey)⟩
  sharedCapabilities := [eth, les]
  snappy := snappy
  disconnected := false

theorem exampleClient_writes (snappy : Bool) : (exampleClient snappy).stream.rx.codec.ecies.Writes exampleHalf :=
  ⟨rfl, rfl⟩

/-- A short message is sent whole. -/
theorem les_one_sent_whole :
    SendsWhole crates (exampleClient true) exampleHalf (.subprotocol ⟨les.name, ⟨1, [0xc0]⟩⟩) := by
  refine (startSend_whole Rlp.standard_lawful snapLaws (exampleClient_writes true) _).2 (.inr ?_)
  rintro id payload ⟨⟩
  exact ⟨by decide, ⟨_, rfl, by decide⟩, fun _ _ => by decide⟩

/-- A message of `2 ^ 24` bytes panics without compression. -/
theorem eth_zero_panics : ¬∀ (tx : PeerStream (ECIESStream crates)) (h : Half) (m : PeerMessage),
    tx.stream.rx.codec.ecies.Writes h → SendsWhole crates tx h m := by
  intro hall
  obtain ⟨data, hlen⟩ : ∃ data : Bytes, data.length = 2 ^ 24 := ⟨List.replicate (2 ^ 24) 0, List.length_replicate⟩
  have h := hall (exampleClient false) exampleHalf (.subprotocol ⟨eth.name, ⟨0, data⟩⟩) (exampleClient_writes false)
  have hwire : onWire crates [eth, les] (.subprotocol ⟨eth.name, ⟨0, data⟩⟩) = some (0x10, data) := rfl
  unfold SendsWhole at h
  rw [wp_startSend, if_neg (by simp [exampleClient])] at h
  simp only [exampleClient, hwire] at h
  obtain ⟨-, z, hz, h⟩ := h
  cases hz
  have hlt := ((ECIESStream.wp_startSend (exampleClient_writes false) _).1 h).1
  rw [List.length_append] at hlt
  omega

end Example

end PeerStream

end EthereumSentry
