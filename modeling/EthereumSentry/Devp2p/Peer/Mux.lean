import EthereumSentry.Devp2p.Peer.Stream
import EthereumSentry.Devp2p.Software

/-!
# Multiplexing capability messages

The sender adds the lengths of the capabilities before one to a message id, and writes the sum as an RLP integer. The
receiver reads one byte as the sum, and takes lengths off it again (`demux`): it goes on after it has found the
capability, and it takes a length off only when more than that length is left. So a message comes back as it was sent
exactly when the sum is a single byte, the id is not `0` unless its capability is the first, and no later capability is
shorter than the id (`mux_round_trip`).
-/

set_option autoImplicit false

namespace EthereumSentry

namespace PeerStream

variable {c : Crates}

/-! ## The loop of the receiver -/

/-- The index only grows. -/
theorem le_demux_index : ∀ (caps : List CapabilityInfo) (m i : Nat), i ≤ (demux caps m i).2
  | [], _, _ => le_rfl
  | cap :: caps, m, i => by
    rw [demux]
    split
    · exact (Nat.le_succ i).trans (le_demux_index caps _ _)
    · exact le_demux_index caps _ _

/-- Something is left when there was something. -/
theorem demux_pos : ∀ (caps : List CapabilityInfo) {m : Nat} (i : Nat), 0 < m → 0 < (demux caps m i).1
  | [], _, _, h => h
  | cap :: caps, m, i, h => by
    rw [demux]
    split
    · exact demux_pos caps _ (by omega)
    · exact demux_pos caps _ h

/-- The total length of some capabilities. -/
def totalLength (caps : List CapabilityInfo) : Nat := (caps.map (·.length)).sum

/-- The capabilities before that of a positive id are taken off. -/
theorem demux_before : ∀ (before rest : List CapabilityInfo) {id : Nat} (i : Nat), 0 < id →
    demux (before ++ rest) (totalLength before + id) i = demux rest id (i + before.length)
  | [], rest, id, i, _ => by simp [totalLength]
  | cap :: before, rest, id, i, h => by
    have hlt : cap.length < totalLength (cap :: before) + id := by
      simp only [totalLength, List.map_cons, List.sum_cons]
      omega
    have hsub : totalLength (cap :: before) + id - cap.length = totalLength before + id := by
      simp only [totalLength, List.map_cons, List.sum_cons]
      omega
    rw [List.cons_append, demux, if_pos hlt, hsub, demux_before before rest _ h, List.length_cons]
    congr 1
    omega

/-- The capabilities after it are not taken off exactly when none is shorter than the id. -/
theorem demux_after : ∀ (after : List CapabilityInfo) (id i : Nat),
    demux after id i = (id, i) ↔ ∀ d ∈ after, id ≤ d.length
  | [], _, _ => by simp [demux]
  | cap :: after, id, i => by
    rw [demux]
    split
    · rename_i h
      have := le_demux_index after (id - cap.length) (i + 1)
      simp only [List.mem_cons, forall_eq_or_imp]
      constructor
      · intro he
        rw [he] at this
        omega
      · intro he
        omega
    · rename_i h
      rw [demux_after after id i]
      simp only [List.mem_cons, forall_eq_or_imp, Nat.not_lt.1 h, true_and]

/-- When the capabilities before it are taken off, the rest must not be. -/
theorem demux_eq_of {before after : List CapabilityInfo} {cap : CapabilityInfo} {id : Nat} (hid : id < cap.length)
    (h : before = [] ∨ 0 < id) :
    demux (before ++ cap :: after) (totalLength before + id) 0 = (id, before.length) ↔ ∀ d ∈ after, id ≤ d.length := by
  have hcap : ∀ i, demux (cap :: after) id i = demux after id i := fun i => by
    rw [demux, if_neg (by omega)]
  rcases h with rfl | h
  · simp [totalLength, hcap, demux_after]
  · rw [demux_before _ _ _ h, hcap, Nat.zero_add, demux_after]

/-- **The loop finds the capability and the id** of a sum exactly under these conditions. -/
theorem demux_eq {before after : List CapabilityInfo} {cap : CapabilityInfo} {id : Nat}
    (hpos : ∀ d ∈ before, 0 < d.length) (hid : id < cap.length) :
    demux (before ++ cap :: after) (totalLength before + id) 0 = (id, before.length) ↔
      (before = [] ∨ 0 < id) ∧ ∀ d ∈ after, id ≤ d.length := by
  by_cases h : before = [] ∨ 0 < id
  · rw [demux_eq_of hid h, and_iff_right h]
  · refine iff_of_false (fun he => ?_) fun hc => h hc.1
    obtain ⟨hb, rfl⟩ : before ≠ [] ∧ id = 0 := by
      push Not at h
      exact ⟨h.1, by omega⟩
    obtain ⟨b, before, rfl⟩ := List.exists_cons_of_ne_nil hb
    have hsum : 0 < totalLength (b :: before) + 0 := by
      have := hpos b (by simp)
      simp only [totalLength, List.map_cons, List.sum_cons]
      omega
    -- something is left, so the id is not `0`
    have := demux_pos (b :: before ++ cap :: after) 0 hsum
    rw [he] at this
    omega

/-! ## The sum of the sender -/

theorem run_addLengths {S : Type} {cap : CapabilityInfo} : ∀ {before : List CapabilityInfo}
    (after : List CapabilityInfo) {m : Nat} (s : PeerStream S), cap ∉ before → m + totalLength before < usizeBound →
    (addLengths cap (before ++ cap :: after) m).run s = .ok (m + totalLength before) s
  | [], after, m, s, _, _ => by simp [addLengths, totalLength]
  | d :: before, after, m, s, hmem, hlt => by
    simp only [List.mem_cons, not_or] at hmem
    simp only [totalLength, List.map_cons, List.sum_cons] at hlt ⊢
    rw [List.cons_append, addLengths, if_neg (fun h => hmem.1 h.symm), Prog.run_bind_ok (Prog.run_add (by omega) s),
      run_addLengths after s hmem.2 (by rw [totalLength]; omega), totalLength]
    rw [Nat.add_assoc]

/-- A sum that does not fit panics. -/
theorem run_addLengths_crash {S : Type} {cap : CapabilityInfo} : ∀ {before : List CapabilityInfo}
    (after : List CapabilityInfo) {m : Nat} (s : PeerStream S), cap ∉ before → m < usizeBound →
    usizeBound ≤ m + totalLength before →
    (addLengths cap (before ++ cap :: after) m).run s = .error .panic s
  | [], after, m, s, _, hm, hle => by
    simp only [totalLength, List.map_nil, List.sum_nil] at hle
    omega
  | d :: before, after, m, s, hmem, hm, hle => by
    simp only [List.mem_cons, not_or] at hmem
    simp only [totalLength, List.map_cons, List.sum_cons] at hle
    rw [List.cons_append, addLengths, if_neg (fun h => hmem.1 h.symm)]
    by_cases hlt : m + d.length < usizeBound
    · rw [Prog.run_bind_ok (Prog.run_add hlt s)]
      exact run_addLengths_crash after s hmem.2 hlt (by rw [totalLength]; omega)
    · exact Prog.run_bind_err (Prog.run_add_crash (Nat.not_lt.1 hlt) s) _

/-! ## The round trip -/

/-- The payload of a frame. -/
def wirePayload (c : Crates) (snappy : Bool) (data : Bytes) : Option Bytes :=
  if snappy then (c.compress data (c.maxCompressLen data.length)).toOption else some data

theorem run_writePayload {S : Type} {s : PeerStream S} {data out : Bytes}
    (h : wirePayload c s.snappy data = some out) : (writePayload c data).run s = .ok out s := by
  unfold writePayload wirePayload at *
  rw [Prog.run_bind_ok (EStateM.run_get s)]
  cases hs : s.snappy with
  | true =>
    simp only [hs, ↓reduceIte] at h ⊢
    cases hc : c.compress data (c.maxCompressLen data.length) with
    | error e => rw [hc] at h; cases h
    | ok z => rw [hc] at h; cases h; rfl
  | false =>
    simp only [hs, Bool.false_eq_true, ↓reduceIte, Option.some.injEq] at h ⊢
    subst h
    rfl

theorem exists_wirePayload (hz : c.SnapLaws) (snappy : Bool) {data : Bytes} (hd : data.length ≤ maxPayloadSize) :
    ∃ out, wirePayload c snappy data = some out := by
  cases snappy with
  | true =>
    obtain ⟨z, hz⟩ := hz.compress_ok data (lt_of_le_of_lt hd (by decide))
    exact ⟨z, by simp [wirePayload, hz, Except.toOption]⟩
  | false => exact ⟨data, rfl⟩

/-- A payload is read back after a message id of one byte. -/
theorem run_readPayload (hz : c.SnapLaws) {S : Type} {s : PeerStream S} {data out : Bytes} (id : UInt8)
    (hd : s.snappy = true → data.length ≤ maxPayloadSize) (h : wirePayload c s.snappy data = some out) :
    (readPayload c (id :: out)).run s = .ok data s := by
  unfold readPayload wirePayload at *
  rw [Prog.run_bind_ok (EStateM.run_get s), Prog.run_bind_ok (Prog.run_sliceFrom (by simp) s)]
  simp only [List.drop_succ_cons, List.drop_zero]
  cases hs : s.snappy with
  | true =>
    simp only [hs, ↓reduceIte] at h ⊢
    cases hc : c.compress data (c.maxCompressLen data.length) with
    | error e => rw [hc] at h; cases h
    | ok z =>
      rw [hc] at h
      cases h
      rw [hz.decompressLen_compress _ _ _ hc, Prog.run_bind_ok (Prog.run_ofExcept_ok _ _ s),
        if_neg (Nat.not_lt.2 (hd hs)), hz.decompressVec_compress _ _ _ hc]
      rfl
  | false =>
    simp only [hs, Bool.false_eq_true, ↓reduceIte, Option.some.injEq] at h ⊢
    subst h
    rfl

/-- What a message id from `0x10` on returns. -/
theorem run_readSubprotocol_eq_ok {S : Type} {messageId : Nat} {data : Bytes} {s s' : PeerStream S} {m : PeerMessage}
    (h : 0x10 ≤ messageId) :
    (readSubprotocol messageId data).run s = .ok m s' ↔ s' = s ∧
      ∃ cap, s.sharedCapabilities[(demux s.sharedCapabilities (messageId - 0x10) 0).2]? = some cap ∧
        m = .subprotocol ⟨cap.name, ⟨(demux s.sharedCapabilities (messageId - 0x10) 0).1, data⟩⟩ := by
  unfold readSubprotocol
  rw [Prog.run_bind_ok (EStateM.run_get s), Prog.run_bind_ok (Prog.run_sub h s)]
  dsimp only
  split
  · rename_i hl
    rw [List.getElem?_eq_none hl]
    simp
  · rename_i hl
    rw [List.getElem?_eq_getElem (Nat.not_le.1 hl), Prog.run_bind_ok (Prog.run_unwrap_some _ s)]
    constructor
    · intro h
      cases h
      exact ⟨rfl, _, rfl, rfl⟩
    · rintro ⟨rfl, cap, hcap, rfl⟩
      cases hcap
      rfl

/-- A message id of one byte is parsed, and then the payload is read. -/
theorem run_onFrame_small (hr : c.rlp.Lawful) {S : Type} (s : PeerStream S) {messageId : Nat} (out : Bytes)
    (h₁ : 0 < messageId) (h₂ : messageId < 0x80) :
    (onFrame c (c.rlp.encodeUint messageId ++ out)).run s =
      (readPayload c (UInt8.ofNat messageId :: out) >>= fun data =>
        if messageId < 0x10 then readReserved c messageId data else readSubprotocol messageId data).run s := by
  have hn : (UInt8.ofNat messageId).toNat = messageId := by
    rw [UInt8.toNat_ofNat']; omega
  have hid : c.rlp.uint 8 [UInt8.ofNat messageId] = .ok messageId := by
    have := hr.uint_byte 8 (UInt8.ofNat messageId) (by decide)
    have h0 : UInt8.ofNat messageId ≠ 0 := fun he => by
      rw [he] at hn
      simp at hn
      omega
    have h80 : UInt8.ofNat messageId < 0x80 := by
      rw [UInt8.lt_iff_toNat_lt, hn]
      exact h₂
    rw [if_neg h0, if_pos h80, hn] at this
    cases hu : c.rlp.uint 8 [UInt8.ofNat messageId] with
    | error e => rw [hu] at this; cases this
    | ok v => rw [hu] at this; cases this; rfl
  rw [hr.uint_small messageId h₁ h₂]
  unfold onFrame
  rw [Prog.run_bind_ok (Prog.run_slice (by omega) (by simp) s)]
  simp only [List.singleton_append, List.take_succ_cons, List.take_zero, List.drop_zero, hid]

/-- A message id of one byte is read. -/
theorem run_onFrame_byte (hr : c.rlp.Lawful) (hz : c.SnapLaws) {S : Type} {s : PeerStream S} {messageId : Nat}
    {data out : Bytes} (h₁ : 0 < messageId) (h₂ : messageId < 0x80) (hd : data.length ≤ maxPayloadSize)
    (h : wirePayload c s.snappy data = some out) :
    (onFrame c (c.rlp.encodeUint messageId ++ out)).run s =
      (if messageId < 0x10 then readReserved c messageId data else readSubprotocol messageId data).run s := by
  rw [run_onFrame_small hr s out h₁ h₂, Prog.run_bind_ok (run_readPayload hz _ (fun _ => hd) h)]

/-- A message id of more than one byte is not. -/
theorem run_onFrame_large (hr : c.rlp.Lawful) {S : Type} (s : PeerStream S) {messageId : Nat} (out : Bytes)
    (h₁ : 0x80 ≤ messageId) (h₂ : messageId < usizeBound) :
    ∃ msg, (onFrame c (c.rlp.encodeUint messageId ++ out)).run s = .error (.err (.other msg)) s := by
  obtain ⟨k, digits, hk, -, -, he⟩ := hr.uint_large messageId h₁ h₂
  have hid : ∃ e, c.rlp.uint 8 [k] = .error e := by
    have := hr.uint_byte 8 k (by decide)
    have h0 : k ≠ 0 := fun h => by subst h; exact absurd hk (by decide)
    have h80 : ¬k < 0x80 := fun h => absurd (UInt8.lt_of_le_of_lt hk h) (by decide)
    have h80' : k ≠ 0x80 := fun h => by subst h; exact absurd hk (by decide)
    rw [if_neg h0, if_neg h80, if_neg h80'] at this
    cases hu : c.rlp.uint 8 [k] with
    | error e => exact ⟨e, rfl⟩
    | ok v => rw [hu] at this; cases this
  obtain ⟨e, hid⟩ := hid
  unfold onFrame
  rw [he, Prog.run_bind_ok (Prog.run_slice (by omega) (by simp) s)]
  simp only [List.cons_append, List.take_succ_cons, List.take_zero, List.drop_zero, hid]
  exact ⟨_, rfl⟩

/-- The stream with a frame that is next to be received. -/
def receiving (s : PeerStream FrameQueue) (frame : Bytes) : PeerStream FrameQueue :=
  { s with stream := { s.stream with arrived := frame :: s.stream.arrived } }

/-- `poll_next` reads the frame that the transport yields. -/
theorem run_pollNext_frame {S : Type} {F : Frames S} {s : PeerStream S} {t : S} {frame : Bytes}
    (hd : s.disconnected = false) (h : F.pollNext.run s.stream = .ok (.ready (some frame)) t) :
    (pollNext c F).run s = (onFrame c frame >>= fun m => pure (.ready (some m))).run { s with stream := t } := by
  unfold pollNext
  rw [Prog.run_bind_ok (EStateM.run_get _), if_neg (by simp [hd]), inStream, Prog.run_bind_ok (Prog.run_zoom_ok h)]

/-- `poll_next` takes the next frame of a queue. -/
theorem run_pollNext_receiving {s s' : PeerStream FrameQueue} {frame : Bytes} {m : PeerMessage}
    (hd : s.disconnected = false) :
    (pollNext c FrameQueue.frames).run (s.receiving frame) = .ok (.ready (some m)) s' ↔
      (onFrame c frame).run s = .ok m s' := by
  have hq : FrameQueue.frames.pollNext.run (s.receiving frame).stream = .ok (.ready (some frame)) s.stream := rfl
  rw [run_pollNext_frame (by simp [receiving, hd]) hq, Prog.run_bind_eq_ok]
  constructor
  · rintro ⟨_, _, h, h'⟩
    cases h'
    exact h
  · exact fun h => ⟨m, s', h, rfl⟩

/-- The capabilities of a session: their names ascend and their lengths are positive. -/
structure Negotiated (caps : List CapabilityInfo) : Prop where
  ascending : caps.Pairwise (·.name < ·.name)
  positive : ∀ cap ∈ caps, 0 < cap.length

/-- The stream is open, with these capabilities and this compression setting. -/
structure Open (s : PeerStream FrameQueue) (caps : List CapabilityInfo) (snappy : Bool) : Prop where
  caps : s.sharedCapabilities = caps
  snappy : s.snappy = snappy
  connected : s.disconnected = false

/-- One end sends a frame for the message, and the other end reads the message from that frame. -/
def RoundTrips (c : Crates) (tx rx : PeerStream FrameQueue) (m : SubprotocolMessage) : Prop :=
  ∃ frame tx' rx', (startSend c FrameQueue.frames (.subprotocol m)).run tx = .ok () tx' ∧
    tx'.stream.sent = tx.stream.sent ++ [frame] ∧
    (pollNext c FrameQueue.frames).run (rx.receiving frame) = .ok (.ready (some (.subprotocol m))) rx'

section RoundTrip

variable {caps before after : List CapabilityInfo} {cap : CapabilityInfo}

theorem name_ne_of_split (hn : caps.Pairwise (·.name < ·.name)) (hs : caps = before ++ cap :: after) :
    (∀ d ∈ before, d.name ≠ cap.name) ∧ ∀ d ∈ after, d.name ≠ cap.name := by
  have h := hn
  rw [hs, List.pairwise_append, List.pairwise_cons] at h
  have hirrefl : ∀ a b : CapabilityName, a < b → a ≠ b := fun a b hlt he => by
    subst he
    exact lt_irrefl a.text hlt
  exact ⟨fun d hd => hirrefl _ _ (h.2.2 d hd cap (by simp)), fun d hd => (hirrefl _ _ (h.2.1.1 d hd)).symm⟩

theorem find_name (hn : caps.Pairwise (·.name < ·.name)) (hs : caps = before ++ cap :: after) :
    caps.find? (·.name = cap.name) = some cap := by
  have hb : before.find? (fun d => decide (d.name = cap.name)) = none := by
    rw [List.find?_eq_none]
    exact fun d hd => by simpa using (name_ne_of_split hn hs).1 d hd
  rw [hs, List.find?_append, hb]
  simp

/-- The name determines the index. -/
theorem index_eq_of_name (hn : caps.Pairwise (·.name < ·.name)) (hs : caps = before ++ cap :: after) {i : Nat}
    {d : CapabilityInfo}
    (hd : caps[i]? = some d) (hname : d.name = cap.name) : i = before.length := by
  rw [hs] at hd
  rcases lt_trichotomy i before.length with h | h | h
  · rw [List.getElem?_append_left h] at hd
    exact absurd hname ((name_ne_of_split hn hs).1 d (List.mem_of_getElem? hd))
  · exact h
  · obtain ⟨k, rfl⟩ : ∃ k, i = before.length + (k + 1) := ⟨i - before.length - 1, by omega⟩
    rw [List.getElem?_append_right (by omega), show before.length + (k + 1) - before.length = k + 1 by omega,
      List.getElem?_cons_succ] at hd
    exact absurd hname ((name_ne_of_split hn hs).2 d (List.mem_of_getElem? hd))

/-- The message id and the payload of a message, over any transport. -/
theorem run_toWire {S : Type} {tx : PeerStream S} (hc : tx.sharedCapabilities = caps)
    (hn : caps.Pairwise (·.name < ·.name)) (hs : caps = before ++ cap :: after) {id : Nat} (data : Bytes)
    (hid : id < cap.length) (hfit : 0x10 + totalLength before + id < usizeBound) :
    (toWire c (.subprotocol ⟨cap.name, ⟨id, data⟩⟩)).run tx =
      .ok (some (0x10 + totalLength before + id, data)) tx := by
  have hmem : cap ∉ before := fun h => (name_ne_of_split hn hs).1 cap h rfl
  unfold toWire
  rw [Prog.run_bind_ok (EStateM.run_get tx)]
  simp only [hc, find_name hn hs, Nat.not_le.2 hid, ↓reduceIte]
  rw [hs, Prog.run_bind_ok (run_addLengths after tx hmem (by omega)), Prog.run_bind_ok (Prog.run_add hfit tx)]
  rfl

/-- **What is handed to the transport**: the message id and the payload. -/
theorem run_startSend_frame {S : Type} {F : Frames S} {tx : PeerStream S} (hd : tx.disconnected = false)
    (hc : tx.sharedCapabilities = caps) (hn : caps.Pairwise (·.name < ·.name)) (hs : caps = before ++ cap :: after)
    {id : Nat} {data out : Bytes} (hid : id < cap.length) (hout : wirePayload c tx.snappy data = some out)
    (hfit : 0x10 + totalLength before + id < usizeBound) :
    (startSend c F (.subprotocol ⟨cap.name, ⟨id, data⟩⟩)).run tx =
      (inStream (F.startSend (c.rlp.encodeUint (0x10 + totalLength before + id) ++ out))).run tx := by
  unfold startSend
  rw [Prog.run_bind_ok (EStateM.run_get tx)]
  rw [if_neg (by simp [hd]), Prog.run_bind_ok (run_toWire hc hn hs data hid hfit)]
  dsimp only
  rw [Prog.run_bind_ok (run_writePayload hout)]

/-- The frame that is sent for a message. -/
theorem run_startSend {tx : PeerStream FrameQueue} {snappy : Bool} (ho : Open tx caps snappy) (hn : Negotiated caps)
    (hs : caps = before ++ cap :: after) {id : Nat} {data out : Bytes} (hid : id < cap.length)
    (hout : wirePayload c snappy data = some out) (hfit : 0x10 + totalLength before + id < usizeBound) :
    (startSend c FrameQueue.frames (.subprotocol ⟨cap.name, ⟨id, data⟩⟩)).run tx = .ok ()
      { tx with stream := { tx.stream with
        sent := tx.stream.sent ++ [c.rlp.encodeUint (0x10 + totalLength before + id) ++ out] } } := by
  rw [run_startSend_frame ho.connected ho.caps hn.ascending hs hid (by rwa [ho.snappy]) hfit]
  rfl

/-- A sum that does not fit panics. -/
theorem run_startSend_crash {tx : PeerStream FrameQueue} {snappy : Bool} (ho : Open tx caps snappy)
    (hn : Negotiated caps) (hs : caps = before ++ cap :: after) {id : Nat} (data : Bytes) (hid : id < cap.length)
    (hfit : usizeBound ≤ 0x10 + totalLength before + id) :
    ∃ tx', (startSend c FrameQueue.frames (.subprotocol ⟨cap.name, ⟨id, data⟩⟩)).run tx = .error .panic tx' := by
  have hmem : cap ∉ before := fun h => (name_ne_of_split hn.ascending hs).1 cap h rfl
  have hwire : (toWire c (.subprotocol ⟨cap.name, ⟨id, data⟩⟩)).run tx = .error .panic tx := by
    unfold toWire
    rw [Prog.run_bind_ok (EStateM.run_get tx)]
    simp only [ho.caps, find_name hn.ascending hs, Nat.not_le.2 hid, ↓reduceIte]
    by_cases hsum : 0x10 + totalLength before < usizeBound
    · rw [hs, Prog.run_bind_ok (run_addLengths after tx hmem hsum)]
      exact Prog.run_bind_err (Prog.run_add_crash hfit tx) _
    · rw [hs]
      exact Prog.run_bind_err (run_addLengths_crash after tx hmem (by decide) (Nat.not_lt.1 hsum)) _
  refine ⟨tx, ?_⟩
  unfold startSend
  rw [Prog.run_bind_ok (EStateM.run_get tx)]
  simp only [ho.connected, Bool.false_eq_true, ↓reduceIte]
  exact Prog.run_bind_err hwire _

/-- **The multiplexing round trip.** A message with an id below the length of its capability comes back as it was sent
exactly when the sum fits one byte, the id is not `0` unless the capability is the first, and no later capability is
shorter than the id. -/
theorem mux_round_trip (hr : c.rlp.Lawful) (hz : c.SnapLaws) {tx rx : PeerStream FrameQueue} {snappy : Bool}
    (htx : Open tx caps snappy) (hrx : Open rx caps snappy) (hn : Negotiated caps) (hs : caps = before ++ cap :: after)
    {id : Nat} {data : Bytes} (hid : id < cap.length) (hd : data.length ≤ maxPayloadSize) :
    RoundTrips c tx rx ⟨cap.name, ⟨id, data⟩⟩ ↔
      0x10 + totalLength before + id ≤ 0x7f ∧ (before = [] ∨ 0 < id) ∧ ∀ d ∈ after, id ≤ d.length := by
  obtain ⟨out, hout⟩ := exists_wirePayload hz snappy hd
  have hposb : ∀ d ∈ before, 0 < d.length := fun d h => hn.positive d (by rw [hs]; simp [h])
  by_cases hfit : 0x10 + totalLength before + id < usizeBound
  swap
  · -- the sender panics
    obtain ⟨_, hcrash⟩ := run_startSend_crash (c := c) htx hn hs data hid (Nat.not_lt.1 hfit)
    refine iff_of_false ?_ fun h => ?_
    · rintro ⟨_, _, _, h, -⟩
      rw [hcrash] at h
      cases h
    · have : usizeBound = 2 ^ 64 := rfl
      omega
  have hsend := run_startSend htx hn hs hid hout hfit
  have hrecv : RoundTrips c tx rx ⟨cap.name, ⟨id, data⟩⟩ ↔ ∃ rx',
      (onFrame c (c.rlp.encodeUint (0x10 + totalLength before + id) ++ out)).run rx =
        .ok (.subprotocol ⟨cap.name, ⟨id, data⟩⟩) rx' := by
    constructor
    · rintro ⟨frame, tx', rx', h, hsent, hpoll⟩
      rw [hsend] at h
      cases h
      cases List.append_cancel_left hsent
      exact ⟨rx', (run_pollNext_receiving hrx.connected).1 hpoll⟩
    · rintro ⟨rx', h⟩
      exact ⟨_, _, rx', hsend, rfl, (run_pollNext_receiving hrx.connected).2 h⟩
  rw [hrecv]
  by_cases hsmall : 0x10 + totalLength before + id < 0x80
  swap
  · -- the receiver reads the first of several bytes
    obtain ⟨e, he⟩ := run_onFrame_large hr rx out (Nat.not_lt.1 hsmall) hfit
    refine iff_of_false ?_ (by omega)
    rintro ⟨_, h⟩
    rw [he] at h
    cases h
  have hsub : 0x10 + totalLength before + id - 0x10 = totalLength before + id := by omega
  rw [run_onFrame_byte hr hz (by omega) hsmall hd (by rw [hrx.snappy]; exact hout), if_neg (by omega),
    ← demux_eq hposb hid]
  simp only [run_readSubprotocol_eq_ok (show 0x10 ≤ 0x10 + totalLength before + id by omega), hsub, hrx.caps, ← hs]
  constructor
  · rintro ⟨_, rfl, cap', hcap', hm⟩
    simp only [PeerMessage.subprotocol.injEq, SubprotocolMessage.mk.injEq, Message.mk.injEq, and_true] at hm
    -- the index is that of the only capability with the name
    exact ⟨by omega, Prod.ext hm.2.symm (index_eq_of_name hn.ascending hs hcap' hm.1.symm)⟩
  · rintro ⟨_, hdemux⟩
    refine ⟨rx, rfl, cap, ?_, ?_⟩
    · rw [hdemux, hs]
      simp
    · rw [hdemux]

end RoundTrip

section Example

open Software

theorem eth_fits : "eth".utf8ByteSize ≤ 4 := by decide

def eth : CapabilityInfo := ⟨⟨"eth", eth_fits⟩, 66, 17⟩

def les : CapabilityInfo := ⟨⟨"les", by decide⟩, 4, 21⟩

/-- An open stream with both capabilities. -/
def ethLes : PeerStream FrameQueue := ⟨⟨[], false, []⟩, [eth, les], false, false⟩

theorem ethLes_negotiated : Negotiated [eth, les] where
  ascending := by
    have : eth.name < les.name := by decide
    simpa using this
  positive := by decide

/-- The second message of `les` comes back. -/
theorem les_one_round_trips : RoundTrips crates ethLes ethLes ⟨les.name, ⟨1, [0xc0]⟩⟩ :=
  (mux_round_trip Rlp.standard_lawful snapLaws ⟨rfl, rfl, rfl⟩ ⟨rfl, rfl, rfl⟩ ethLes_negotiated
    (show [eth, les] = [eth] ++ les :: [] from rfl) (by decide) (by decide)).2 ⟨by decide, by decide, by decide⟩

/-- The first message of `les` comes back as message 17 of `eth`, which has messages 0 to 16. -/
theorem les_zero_misread : ¬∀ (caps : List CapabilityInfo) (tx rx : PeerStream FrameQueue) (snappy : Bool)
    (cap : CapabilityInfo) (id : Nat) (data : Bytes), Negotiated caps → Open tx caps snappy → Open rx caps snappy →
    cap ∈ caps → id < cap.length → data.length ≤ maxPayloadSize →
    RoundTrips crates tx rx ⟨cap.name, ⟨id, data⟩⟩ := by
  intro h
  obtain ⟨frame, tx', rx', hsend, hsent, hpoll⟩ := h [eth, les] ethLes ethLes false les 0 [0xc0] ethLes_negotiated
    ⟨rfl, rfl, rfl⟩ ⟨rfl, rfl, rfl⟩ (by decide) (by decide) (by decide)
  have hrun : (startSend crates FrameQueue.frames (.subprotocol ⟨les.name, ⟨0, [0xc0]⟩⟩)).run ethLes =
      .ok () { ethLes with stream := ⟨[], false, [[0x21, 0xc0]]⟩ } := rfl
  rw [hrun] at hsend
  cases hsend
  cases hsent
  have hread : (pollNext crates FrameQueue.frames).run (ethLes.receiving [0x21, 0xc0]) =
      .ok (.ready (some (.subprotocol ⟨eth.name, ⟨17, [0xc0]⟩⟩))) ethLes := rfl
  have hname : eth.name ≠ les.name := by decide
  rw [hread] at hpoll
  simp [hname] at hpoll

end Example

end PeerStream

end EthereumSentry
