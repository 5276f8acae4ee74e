import EthereumSentry.Devp2p.Peer.Negotiation

/-!
# Agreement on compression

`PeerStream::new` decides from its own protocol version whether payloads are compressed, and does not look at the
version in the `Hello` of the remote. So two nodes agree exactly when they have the same protocol version
(`compression_agrees`); then a message comes through with its data when the multiplexing carries it (`Routed`) and the
payload is within the limit.
-/

set_option autoImplicit false

namespace EthereumSentry

namespace PeerStream

variable {c : Crates} {S T : Type} {F : Frames S} {G : Frames T}

/-! ## Messages between two streams -/

/-- The multiplexing carries the message: its id and its capability survive the sum in one byte. -/
def Routed (caps : List CapabilityInfo) (m : SubprotocolMessage) : Prop :=
  ∃ before cap after, caps = before ++ cap :: after ∧ m.capName = cap.name ∧ m.message.id < cap.length ∧
    0x10 + totalLength before + m.message.id ≤ 0x7f ∧ (before = [] ∨ 0 < m.message.id) ∧
    ∀ d ∈ after, m.message.id ≤ d.length

/-- One end hands a frame for the message to its transport, and the other end returns the message when its transport
yields that frame. -/
def Reaches (c : Crates) (F : Frames S) (G : Frames T) (p : PeerStream S) (q : PeerStream T)
    (m : SubprotocolMessage) : Prop :=
  ∃ frame, (startSend c F (.subprotocol m)).run p = (inStream (F.startSend frame)).run p ∧
    ∀ t, G.pollNext.run q.stream = .ok (.ready (some frame)) t →
      (pollNext c G).run q = .ok (.ready (some (.subprotocol m))) { q with stream := t }

/-- **A message that the multiplexing carries comes through** between ends with the same capabilities and the same
compression. -/
theorem reaches_of_routed (hr : c.rlp.Lawful) (hz : c.SnapLaws) {caps : List CapabilityInfo} {p : PeerStream S}
    {q : PeerStream T} (hn : caps.Pairwise (·.name < ·.name)) (hp : p.sharedCapabilities = caps)
    (hq : q.sharedCapabilities = caps) (hdp : p.disconnected = false) (hdq : q.disconnected = false)
    (hs : p.snappy = q.snappy) {m : SubprotocolMessage} (hm : Routed caps m)
    (hlen : m.message.data.length ≤ maxPayloadSize) : Reaches c F G p q m := by
  obtain ⟨name, id, data⟩ := m
  obtain ⟨before, cap, after, hcaps, rfl, hid, hsmall, hfirst, hafter⟩ := hm
  dsimp only at hid hsmall hfirst hafter hlen
  obtain ⟨out, hout⟩ := exists_wirePayload hz p.snappy hlen
  have hfit : 0x10 + totalLength before + id < usizeBound := lt_of_le_of_lt hsmall (by decide)
  refine ⟨_, run_startSend_frame hdp hp hn hcaps hid hout hfit, fun t ht => ?_⟩
  rw [run_pollNext_frame hdq ht]
  have hread : (onFrame c (c.rlp.encodeUint (0x10 + totalLength before + id) ++ out)).run { q with stream := t } =
      .ok (.subprotocol ⟨cap.name, ⟨id, data⟩⟩) { q with stream := t } := by
    rw [run_onFrame_byte hr hz (by omega) (by omega) hlen (by rw [← hs]; exact hout), if_neg (by omega),
      run_readSubprotocol_eq_ok (by omega)]
    have hdemux := (demux_eq_of hid hfirst).2 hafter
    have hsub : 0x10 + totalLength before + id - 0x10 = totalLength before + id := by omega
    refine ⟨rfl, cap, ?_, ?_⟩
    · simp only [hsub, hq, hcaps, hdemux]
      simp
    · simp only [hsub, hq, hcaps, hdemux]
  rw [Prog.run_bind_ok hread]
  rfl

/-! ## The version -/

/-- The versions of the protocol from 5 on are compressed. -/
theorem five_le_toUsize (v : ProtocolVersion) : 5 ≤ v.toUsize ↔ v = .v5 := by cases v <;> decide

theorem eq_of_v5_iff {v w : ProtocolVersion} (h : v = .v5 ↔ w = .v5) : v = w := by
  cases v <;> cases w <;> simp_all

/-- Both ends compress exactly when both advertise version 5 or higher, and every message that the multiplexing carries,
with a payload within the limit, comes through either way. -/
structure CompressionAgrees (c : Crates) (F : Frames S) (G : Frames T) (a b : Setup) (p : PeerStream S)
    (q : PeerStream T) : Prop where
  left : p.snappy = true ↔ 5 ≤ a.hello.protocolVersion ∧ 5 ≤ b.hello.protocolVersion
  right : q.snappy = true ↔ 5 ≤ a.hello.protocolVersion ∧ 5 ≤ b.hello.protocolVersion
  delivered : p.sharedCapabilities = q.sharedCapabilities → ∀ m, Routed p.sharedCapabilities m →
    m.message.data.length ≤ maxPayloadSize → Reaches c F G p q m ∧ Reaches c G F q p m

/-- **Compression agrees exactly when the protocol versions do**, for two nodes that complete `new` with each other over
any transports. -/
theorem compression_agrees (hr : c.rlp.Lawful) (hl : c.rlp.ListLaws) (hz : c.SnapLaws) {a b : Setup}
    {p : PeerStream S} {q : PeerStream T} (hda : (a.capabilities.map (·.key)).Nodup) (hfa : a.hello.Fits c)
    (hfb : b.hello.Fits c) (h : Meet c F G a b p q) :
    CompressionAgrees c F G a b p q ↔ a.protocolVersion = b.protocolVersion := by
  have hp := h.left.eq_stream hr hl hfb
  have hq := h.right.eq_stream hr hl hfa
  have hps : p.snappy = decide (a.protocolVersion = .v5) := by rw [hp]; rfl
  have hqs : q.snappy = decide (b.protocolVersion = .v5) := by rw [hq]; rfl
  have hfive : (5 ≤ a.hello.protocolVersion ∧ 5 ≤ b.hello.protocolVersion) ↔
      a.protocolVersion = .v5 ∧ b.protocolVersion = .v5 :=
    and_congr (five_le_toUsize a.protocolVersion) (five_le_toUsize b.protocolVersion)
  constructor
  · intro hagrees
    have h₁ := hagrees.left
    have h₂ := hagrees.right
    rw [hps, hfive, decide_eq_true_eq] at h₁
    rw [hqs, hfive, decide_eq_true_eq] at h₂
    exact eq_of_v5_iff (h₁.trans h₂.symm)
  · intro hv
    have hsnappy : p.snappy = q.snappy := by rw [hps, hqs, hv]
    have hpn : p.sharedCapabilities.Pairwise (·.name < ·.name) := by
      rw [hp]
      exact (shareCapabilities_shared hda b.hello.capabilities).ascending
    have hpd : p.disconnected = false := by rw [hp]; rfl
    have hqd : q.disconnected = false := by rw [hq]; rfl
    refine ⟨?_, ?_, fun hcaps m hm hlen => ⟨?_, ?_⟩⟩
    · rw [hps, hfive, decide_eq_true_eq, hv, and_self]
    · rw [hqs, hfive, decide_eq_true_eq, hv, and_self]
    · exact reaches_of_routed hr hz hpn rfl hcaps.symm hpd hqd hsnappy hm hlen
    · exact reaches_of_routed hr hz hpn hcaps.symm rfl hqd hpd hsnappy.symm hm hlen

section Example

open Software

/-- The node with `eth`, in version 4 of the protocol. -/
def ethNodeV4 : Setup := { ethNode with protocolVersion := .v4 }

theorem ethNodeV4_fits : ethNodeV4.hello.Fits crates := hello_fits (by decide) (by decide) (by decide +kernel)

/-- Two nodes of version 5 agree. -/
theorem v5_agrees : ∃ p q, Meet crates FrameQueue.frames FrameQueue.frames ethLesNode ethNode p q ∧
    CompressionAgrees crates FrameQueue.frames FrameQueue.frames ethLesNode ethNode p q := by
  obtain ⟨p, q, hmeet⟩ := ethNodes_meet
  exact ⟨p, q, hmeet, (compression_agrees Rlp.standard_lawful Rlp.standard_listLaws snapLaws (by decide)
    ethLesNode_fits ethNode_fits hmeet).2 rfl⟩

/-- A node of version 5 compresses for a node of version 4, which does not expect it. -/
theorem v4_disagrees : ¬∀ (a b : Setup) (p q : PeerStream FrameQueue),
    Meet crates FrameQueue.frames FrameQueue.frames a b p q → p.snappy = q.snappy := by
  intro hall
  have h := hall ethLesNode ethNodeV4 _ _
    ⟨opens_frameQueue Rlp.standard_lawful Rlp.standard_listLaws ethNodeV4_fits (by decide +kernel),
      opens_frameQueue Rlp.standard_lawful Rlp.standard_listLaws ethLesNode_fits (by decide +kernel)⟩
  cases h

end Example

end PeerStream

end EthereumSentry
