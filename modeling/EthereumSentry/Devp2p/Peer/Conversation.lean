import EthereumSentry.Devp2p.Ecies.Duplex
import EthereumSentry.Devp2p.Ecies.InFlight
import EthereumSentry.Devp2p.Peer.Compression
import EthereumSentry.Devp2p.Peer.Control
import EthereumSentry.Devp2p.Peer.FrameLength

/-!
# Two peers in conversation

Two peer streams over the ECIES streams of one handshake: each passes messages to `start_send` and flushes them, the
network delivers bytes in parts of any size, and each polls (`Conversation.step`). In every run, in whatever order these
steps come, an end has received an initial part of what the other has sent, and its next poll returns the next message
once its bytes have arrived (`conversation_correct`). Only a `Disconnect` is not returned as it was sent (`heard`).
-/

set_option autoImplicit false

namespace EthereumSentry

open ECIES

variable {c : Crates}

namespace PeerStream

variable {S T : Type}

/-! ## One message -/

/-- What the receiver makes of a message: it does not find the reason of a `Disconnect`. -/
def heard (c : Crates) : PeerMessage → Except IoError PeerMessage
  | .disconnect reason =>
    .error (.other s!"peer disconnected with malformed message: {c.hexEncode (c.rlp.encodeUint reason.toU8)}")
  | m => .ok m

/-- The connection carries the message: a message of a subprotocol is within the limits of the multiplexing and of the
payload, and the frame is within what three bytes say. -/
structure Carried (c : Crates) (p : PeerStream S) (m : PeerMessage) : Prop where
  routed : ∀ sm, m = .subprotocol sm → Routed p.sharedCapabilities sm ∧ sm.message.data.length ≤ maxPayloadSize
  short : ∀ body, frameBody c p m = some body → body.length < 2 ^ 24

/-- The message id and the payload of a message that the multiplexing carries. -/
theorem onWire_routed {caps before after : List CapabilityInfo} {cap : CapabilityInfo}
    (hn : caps.Pairwise (·.name < ·.name)) (hcaps : caps = before ++ cap :: after) {id : Nat} (hid : id < cap.length)
    (data : Bytes) :
    onWire c caps (.subprotocol ⟨cap.name, ⟨id, data⟩⟩) = some (0x10 + totalLength before + id, data) := by
  have hne := (name_ne_of_split hn hcaps).1
  have htake : caps.takeWhile (·.name ≠ cap.name) = before := by
    rw [hcaps, List.takeWhile_append_of_pos (by simpa using hne), List.takeWhile_cons_of_neg (by simp), List.append_nil]
  simp only [onWire, find_name hn hcaps, Nat.not_le.2 hid, ↓reduceIte, htake]

/-- **What the receiver hears** in the frame of a message, and whether it takes more. -/
theorem run_onFrame_body (hr : c.rlp.Lawful) (hz : c.SnapLaws) {p : PeerStream S}
    (hn : p.sharedCapabilities.Pairwise (·.name < ·.name)) {m : PeerMessage} (hm : Carried c p m) :
    ∃ id payload z, onWire c p.sharedCapabilities m = some (id, payload) ∧ id < usizeBound ∧
      wirePayload c p.snappy payload = some z ∧
      ∀ q : PeerStream T, q.sharedCapabilities = p.sharedCapabilities → q.snappy = p.snappy →
        (onFrame c (c.rlp.encodeUint id ++ z)).run q = match heard c m with
          | .ok m => .ok m q
          | .error e => .error (.err e) { q with disconnected := true } := by
  cases m with
  | disconnect reason =>
    obtain ⟨hl, hw⟩ := controlPayload_wire hr hz p.snappy (.disconnect reason)
    refine ⟨0x01, c.rlp.encodeUint reason.toU8, _, rfl, by decide, hw, fun q _ hs => ?_⟩
    rw [run_onFrame_byte hr hz (by decide) (by decide) hl (by rw [hs]; exact hw), if_pos (by decide), readReserved,
      Prog.run_bind_ok (EStateM.run_modify _ _)]
    dsimp only [Control.payload]
    rw [readReason_none hr]
    rfl
  | ping =>
    obtain ⟨hl, hw⟩ := controlPayload_wire hr hz p.snappy .ping
    refine ⟨0x02, emptyListRlp, _, rfl, by decide, hw, fun q _ hs => ?_⟩
    rw [run_onFrame_byte hr hz (by decide) (by decide) hl (by rw [hs]; exact hw), if_pos (by decide)]
    rfl
  | pong =>
    obtain ⟨hl, hw⟩ := controlPayload_wire hr hz p.snappy .pong
    refine ⟨0x03, emptyListRlp, _, rfl, by decide, hw, fun q _ hs => ?_⟩
    rw [run_onFrame_byte hr hz (by decide) (by decide) hl (by rw [hs]; exact hw), if_pos (by decide)]
    rfl
  | subprotocol sm =>
    obtain ⟨name, id, data⟩ := sm
    obtain ⟨⟨before, cap, after, hcaps, rfl, hid, hsmall, hfirst, hafter⟩, hlen⟩ := hm.routed _ rfl
    dsimp only at hid hsmall hfirst hafter hlen
    obtain ⟨z, hz'⟩ := exists_wirePayload hz p.snappy hlen
    refine ⟨_, data, z, onWire_routed hn hcaps hid data, lt_of_le_of_lt hsmall (by decide), hz', fun q hq hs => ?_⟩
    have hdemux := (demux_eq_of hid hfirst).2 hafter
    have hsub : 0x10 + totalLength before + id - 0x10 = totalLength before + id := by omega
    rw [run_onFrame_byte hr hz (by omega) (by omega) hlen (by rw [hs]; exact hz'), if_neg (by omega)]
    refine (run_readSubprotocol_eq_ok (by omega)).2 ⟨rfl, cap, ?_, ?_⟩
    · simp only [hsub, hq, hcaps, hdemux]
      simp
    · simp only [hsub, hq, hcaps, hdemux]

end PeerStream

open PeerStream

/-! ## The system -/

/-- One end of a conversation. -/
structure Station (c : Crates) where
  stream : PeerStream (ECIESStream c)
  /-- Bytes on their way here. -/
  wire : Bytes
  /-- The messages that `start_send` has accepted. -/
  sent : List PeerMessage
  /-- What `poll_next` has returned. -/
  received : List (Except IoError PeerMessage)
  /-- `poll_next` has returned the end of the stream. -/
  ended : Bool
  /-- A call has panicked. -/
  failed : Bool

/-- Both ends. -/
abbrev Conversation (c : Crates) : Type := Side → Station c

namespace Station

/-- A peer stream over one side of a handshake. -/
def start (caps : List CapabilityInfo) (snappy : Bool) (remoteId : PeerId) (ecies : ECIES c) : Station c where
  stream := ⟨⟨⟨⟨ecies, .header⟩, []⟩, [], false, false, [], remoteId⟩, caps, snappy, false⟩
  wire := []
  sent := []
  received := []
  ended := false
  failed := false

/-- What an end keeps of a `start_send`. -/
def sending (e : Station c) (m : PeerMessage) :
    EStateM.Result (Stop IoError) (PeerStream (ECIESStream c)) Unit → Station c
  | .ok _ s => { e with stream := s, sent := e.sent ++ [m] }
  | .error (.err _) s => { e with stream := s }
  | .error .panic s => { e with stream := s, failed := true }

/-- What an end keeps of a `poll_next`. -/
def polled (e : Station c) :
    EStateM.Result (Stop IoError) (PeerStream (ECIESStream c)) (Poll (Option PeerMessage)) → Station c
  | .ok .pending s => { e with stream := s }
  | .ok (.ready none) s => { e with stream := s, ended := true }
  | .ok (.ready (some m)) s => { e with stream := s, received := e.received ++ [.ok m] }
  | .error (.err error) s => { e with stream := s, received := e.received ++ [.error error] }
  | .error .panic s => { e with stream := s, failed := true }

/-- The bytes that an end has written are handed to the network. -/
def flushed (e : Station c) : Station c :=
  { e with stream := { e.stream with stream := { e.stream.stream with written := [] } } }

/-- The next bytes arrive, as one read. -/
def delivered (e : Station c) (n : Nat) : Station c := { e with
  stream := { e.stream with stream := { e.stream.stream with reads := e.stream.stream.reads ++ [e.wire.take n] } }
  wire := e.wire.drop n }

end Station

namespace Conversation

open Function (update)

/-- The ends after the handshake and the exchange of `Hello`. -/
def start (caps : List CapabilityInfo) (snappy : Bool) (remoteId : Side → PeerId) (client server : ECIES c) :
    Conversation c
  | .client => .start caps snappy (remoteId .client) client
  | .server => .start caps snappy (remoteId .server) server

inductive Event where
  /-- An end passes a message to `start_send`. -/
  | send (x : Side) (m : PeerMessage)
  /-- An end flushes what it has written. -/
  | flush (x : Side)
  /-- So many bytes arrive at an end. -/
  | deliver (x : Side) (n : Nat)
  /-- An end calls `poll_next`. -/
  | poll (x : Side)

/-- One step; an end that has panicked takes no more. -/
def step (d : Conversation c) : Event → Option (Conversation c)
  | .send x m =>
    if (d x).failed then none
    else some (update d x ((d x).sending m ((startSend c (ECIESStream.frames c) m).run (d x).stream)))
  | .flush x => some (update (update d x (d x).flushed) x.other
      { d x.other with wire := (d x.other).wire ++ (d x).stream.stream.written })
  | .deliver x n => if 0 < n ∧ n ≤ (d x).wire.length then some (update d x ((d x).delivered n)) else none
  | .poll x =>
    if (d x).failed then none
    else some (update d x ((d x).polled ((pollNext c (ECIESStream.frames c)).run (d x).stream)))

/-- What both ends have agreed on: the capabilities and the compression. -/
abbrev Agreed : Type := PeerStream Unit

/-- The messages that are passed are carried. -/
def Event.Carried (c : Crates) (p : Agreed) : Event → Prop
  | .send _ m => PeerStream.Carried c p m
  | _ => True

end Conversation

/-! ## One call -/

namespace PeerStream

variable {p : PeerStream Unit} {s : PeerStream (ECIESStream c)}

/-- The frames of some messages. -/
def Bodies (c : Crates) (p : PeerStream Unit) : List PeerMessage → List Bytes → Prop :=
  List.Forall₂ fun m body => frameBody c p m = some body ∧ PeerStream.Carried c p m

theorem Bodies.snoc {ms : List PeerMessage} {bodies : List Bytes} (h : Bodies c p ms bodies) {m : PeerMessage}
    {body : Bytes} (hb : frameBody c p m = some body) (hm : PeerStream.Carried c p m) :
    Bodies c p (ms ++ [m]) (bodies ++ [body]) :=
  List.rel_append h (.cons ⟨hb, hm⟩ .nil)

/-- An open end writes the frame of a message. -/
theorem run_startSend_body (hr : c.rlp.Lawful) (hz : c.SnapLaws)
    (hn : p.sharedCapabilities.Pairwise (·.name < ·.name)) {m : PeerMessage} (hm : PeerStream.Carried c p m)
    (hd : s.disconnected = false) (hcaps : s.sharedCapabilities = p.sharedCapabilities) (hsnappy : s.snappy = p.snappy)
    {h : Half} (hw : s.stream.rx.codec.ecies.Writes h) :
    ∃ body, frameBody c p m = some body ∧ body.length < 2 ^ 24 ∧
      (startSend c (ECIESStream.frames c) m).run s = .ok () { s.afterWire m with stream := { s.stream with
        rx := { s.stream.rx with codec := { s.stream.rx.codec with
          ecies := s.stream.rx.codec.ecies.withEgress (h.next c body) } }
        written := s.stream.written ++ h.frame c body } } := by
  obtain ⟨id, payload, z, hwire, hid, hz', -⟩ := run_onFrame_body (T := Unit) hr hz hn hm
  have hbody : frameBody c p m = some (c.rlp.encodeUint id ++ z) := by
    simp only [frameBody, hwire, hz', Option.bind_eq_bind, Option.bind_some]
  have hlen := hm.short _ hbody
  refine ⟨_, hbody, hlen, ?_⟩
  have hwp : Prog.wp (startSend c (ECIESStream.frames c) m) (fun _ t => t = { s.afterWire m with
    stream := { s.stream with
      rx := { s.stream.rx with codec := { s.stream.rx.codec with
        ecies := s.stream.rx.codec.ecies.withEgress (h.next c (c.rlp.encodeUint id ++ z)) } }
      written := s.stream.written ++ h.frame c (c.rlp.encodeUint id ++ z) } }) (fun _ => False) s := by
    rw [wp_startSend, if_neg (by simp [hd]), hcaps, hwire, hsnappy]
    exact ⟨hid, z, hz', (ECIESStream.wp_startSend hw _).2 ⟨hlen, rfl⟩⟩
  obtain ⟨_, t, hrun, rfl⟩ := Prog.exists_run_of_wp hwp
  exact hrun

/-- What a poll of an end with some messages in flight comes to: the end is silent, or it waits, or it hears the next
message. -/
inductive Hears (c : Crates) (p : PeerStream Unit) (s : PeerStream (ECIESStream c)) (wire : Bytes)
    (rest : List PeerMessage) (h : Half) : Prop
  | silent (hd : s.disconnected = true)
      (hrun : (pollNext c (ECIESStream.frames c)).run s = .ok (.ready none) s)
  | wait {bodies : List Bytes} (t : ECIESStream c) (hd : s.disconnected = false)
      (hrun : (pollNext c (ECIESStream.frames c)).run s = .ok .pending { s with stream := t })
      (ht : t.Expects wire bodies h) (hb : Bodies c p rest bodies) (hk : s.stream.Reads t)
      (hw : wire = [] → rest = [])
  | message {bodies : List Bytes} (t : ECIESStream c) (m : PeerMessage) (rest' : List PeerMessage)
      (hd : s.disconnected = false) (hrest : rest = m :: rest')
      (hrun : (pollNext c (ECIESStream.frames c)).run s = match heard c m with
        | .ok m => .ok (.ready (some m)) { s with stream := t }
        | .error e => .error (.err e) { s with stream := t, disconnected := true })
      (ht : t.Expects wire bodies h) (hb : Bodies c p rest' bodies) (hk : s.stream.Reads t)

theorem pollNext_hears (hr : c.rlp.Lawful) (hz : c.SnapLaws) (hn : p.sharedCapabilities.Pairwise (·.name < ·.name))
    (hcaps : s.sharedCapabilities = p.sharedCapabilities) (hsnappy : s.snappy = p.snappy) {wire : Bytes}
    {rest : List PeerMessage} {bodies : List Bytes} {h : Half} (hb : Bodies c p rest bodies)
    (he : s.stream.Expects wire bodies h) : Hears c p s wire rest h := by
  cases hd : s.disconnected with
  | true =>
    refine .silent hd ?_
    unfold pollNext
    rw [Prog.run_bind_ok (EStateM.run_get s), if_pos (by simp [hd])]
    rfl
  | false =>
    obtain ⟨v, t, hpoll, ht⟩ := Prog.exists_run_of_wp (ECIESStream.pollNext_expects he)
    replace hpoll : (ECIESStream.frames c).pollNext.run s.stream = .ok v t := hpoll
    match v, ht with
    | .pending, ⟨ht, hk, hw⟩ =>
      refine .wait t hd ?_ ht hb hk fun hwire => ?_
      · unfold pollNext
        rw [Prog.run_bind_ok (EStateM.run_get s), if_neg (by simp [hd]), inStream,
          Prog.run_bind_ok (Prog.run_zoom_ok hpoll)]
        rfl
      · rw [hw hwire] at hb
        exact List.forall₂_nil_right_iff.1 hb
    | .ready (some body), ⟨bodies', hbodies, ht, hk⟩ =>
      rw [hbodies] at hb
      obtain ⟨m, rest', ⟨hbody, hm⟩, hb', hrest⟩ := List.forall₂_cons_right_iff.1 hb
      refine .message t m rest' hd hrest ?_ ht hb' hk
      obtain ⟨id, payload, z, hwire, hid, hz', hframe⟩ := run_onFrame_body (T := ECIESStream c) hr hz hn hm
      have heq : body = c.rlp.encodeUint id ++ z := by
        simp only [frameBody, hwire, hz', Option.bind_eq_bind, Option.bind_some, Option.some.injEq] at hbody
        exact hbody.symm
      have hread := hframe { s with stream := t } hcaps hsnappy
      rw [run_pollNext_frame hd hpoll, heq]
      cases hheard : heard c m with
      | ok m' =>
        rw [hheard] at hread
        rw [Prog.run_bind_ok hread]
        rfl
      | error e =>
        rw [hheard] at hread
        rw [Prog.run_bind_err hread]

end PeerStream

namespace Conversation

open Function (update)

variable {p : Agreed}

/-! ## One direction -/

/-- What the reader has not heard yet is in flight, after some first frames, and the reader is in step with the
writer. -/
def InStep (p : Agreed) (first : List Bytes) (tx rx : Station c) : Prop :=
  ∃ done rest bodies half, tx.sent = done ++ rest ∧ rx.received = done.map (heard c) ∧
    tx.stream.stream.rx.codec.ecies.Writes half ∧ Bodies c p rest bodies ∧
    rx.stream.stream.Expects (rx.wire ++ tx.stream.stream.written) (first ++ bodies) half

/-- One end: it has what was agreed on, has not panicked, and is silent once it has sent or heard a `Disconnect`. -/
structure Sound (p : Agreed) (e : Station c) : Prop where
  caps : e.stream.sharedCapabilities = p.sharedCapabilities
  snappy : e.stream.snappy = p.snappy
  ok : e.failed = false
  flag : e.stream.disconnected = true ↔
    (∃ reason, .disconnect reason ∈ e.sent) ∨ ∃ error, .error error ∈ e.received
  ended : e.ended = true → e.stream.disconnected = true

/-- The ends that talk, what each knows of the other, and both directions. -/
structure Synced (p : Agreed) (first : Side → List Bytes) (live : Side → Prop) (ids : Side → PeerId)
    (d : Conversation c) : Prop where
  sound : ∀ x, live x → Sound p (d x)
  remoteId : ∀ x, (d x).stream.stream.remoteId = ids x
  inStep : ∀ x, InStep p (first x) (d x) (d x.other)

variable {first : Side → List Bytes} {live : Side → Prop} {ids : Side → PeerId}

theorem synced_of {d : Conversation c} (x : Side) (h : live x → Sound p (d x))
    (ho : live x.other → Sound p (d x.other)) (hid : (d x).stream.stream.remoteId = ids x)
    (hid' : (d x.other).stream.stream.remoteId = ids x.other) (hi : InStep p (first x) (d x) (d x.other))
    (hb : InStep p (first x.other) (d x.other) (d x)) : Synced p first live ids d where
  sound y hy := by
    rcases Side.eq_or_eq_other y x with rfl | rfl
    · exact h hy
    · exact ho hy
  remoteId y := by
    rcases Side.eq_or_eq_other y x with rfl | rfl
    · exact hid
    · exact hid'
  inStep y := by
    rcases Side.eq_or_eq_other y x with rfl | rfl
    · exact hi
    · rw [Side.other_other]
      exact hb

/-- The direction does not depend on what its writer hears, nor on what its reader sends. -/
theorem InStep.congr {tx rx tx' rx' : Station c} {first : List Bytes} (h : InStep p first tx rx)
    (hsent : tx'.sent = tx.sent)
    (haes : tx'.stream.stream.rx.codec.ecies.egressAes = tx.stream.stream.rx.codec.ecies.egressAes)
    (hmac : tx'.stream.stream.rx.codec.ecies.egressMac = tx.stream.stream.rx.codec.ecies.egressMac)
    (hrecv : rx'.received = rx.received)
    (hexp : ∀ bodies half, rx.stream.stream.Expects (rx.wire ++ tx.stream.stream.written) bodies half →
      rx'.stream.stream.Expects (rx'.wire ++ tx'.stream.stream.written) bodies half) : InStep p first tx' rx' := by
  obtain ⟨done, rest, bodies, half, hs, hd, hw, hb, he⟩ := h
  exact ⟨done, rest, bodies, half, hsent.trans hs, hrecv.trans hd, ⟨haes.trans hw.1, hmac.trans hw.2⟩, hb,
    hexp _ _ he⟩

/-! ## Bytes that move -/

/-- The bytes that an end will get. -/
def inbound (d : Conversation c) (x : Side) : Bytes := (d x).wire ++ (d x.other).stream.stream.written

/-- Bytes have moved on their way, and nothing else has happened. -/
structure Moved (d d' : Conversation c) : Prop where
  brings : ∀ x J dry, (d x).stream.stream.Inbound J dry (inbound d x) →
    (d' x).stream.stream.Inbound J dry (inbound d' x)
  codec : ∀ x, (d' x).stream.stream.rx.codec = (d x).stream.stream.rx.codec
  rest : ∀ x, ∃ s wire, s.remoteId = (d x).stream.stream.remoteId ∧
    d' x = { d x with stream := { (d x).stream with stream := s }, wire := wire }

/-- Flushing moves bytes. -/
theorem moved_flush {d d' : Conversation c} {x : Side} (h : step d (.flush x) = some d') : Moved d d' := by
  cases h
  refine ⟨fun y J dry hin => ?_, fun y => ?_, fun y => ?_⟩ <;> rcases Side.eq_or_eq_other y x with rfl | rfl
  · simp only [inbound, Function.update_self, Function.update_of_ne (Side.other_ne y).symm, Station.flushed]
    exact hin.flushed []
  · simp only [inbound, Side.other_other, Function.update_self, Function.update_of_ne (Side.other_ne x).symm,
      Station.flushed, List.append_nil] at hin ⊢
    exact hin
  · simp only [Function.update_of_ne (Side.other_ne y).symm, Function.update_self, Station.flushed]
  · simp only [Function.update_self]
  · simp only [Function.update_of_ne (Side.other_ne y).symm, Function.update_self, Station.flushed]
    exact ⟨{ (d y).stream.stream with written := [] }, _, rfl, rfl⟩
  · simp only [Function.update_self]
    exact ⟨_, _, rfl, rfl⟩

/-- Delivering moves bytes. -/
theorem moved_deliver {d d' : Conversation c} {x : Side} {n : Nat} (h : step d (.deliver x n) = some d') :
    Moved d d' := by
  simp only [step] at h
  split at h
  · rename_i hlen
    cases h
    refine ⟨fun y J dry hin => ?_, fun y => ?_, fun y => ?_⟩ <;> rcases Side.eq_or_eq_other y x with rfl | rfl
    · have hfirst := hin.deliver hlen.1 (by rw [inbound, List.length_append]; omega)
      rw [inbound, List.take_append_of_le_length hlen.2, List.drop_append_of_le_length hlen.2] at hfirst
      simp only [inbound, Function.update_self, Function.update_of_ne (Side.other_ne y), Station.delivered]
      exact hfirst
    · simp only [inbound, Side.other_other, Function.update_self, Function.update_of_ne (Side.other_ne x),
        Station.delivered] at hin ⊢
      exact hin
    · simp only [Function.update_self, Station.delivered]
    · simp only [Function.update_of_ne (Side.other_ne x)]
    · simp only [Function.update_self, Station.delivered]
      exact ⟨{ (d y).stream.stream with reads := (d y).stream.stream.reads ++ [(d y).wire.take n] }, _, rfl, rfl⟩
    · simp only [Function.update_of_ne (Side.other_ne x)]
      exact ⟨_, _, rfl, rfl⟩
  · cases h

/-- Both ends stay in step. -/
theorem Moved.synced {d d' : Conversation c} (h : Moved d d') (hd : Synced p first live ids d) :
    Synced p first live ids d' where
  sound x hx := by
    obtain ⟨s, wire, -, hx'⟩ := h.rest x
    have hs := hd.sound x hx
    rw [hx']
    exact ⟨hs.caps, hs.snappy, hs.ok, hs.flag, hs.ended⟩
  remoteId x := by
    obtain ⟨s, wire, hid, hx⟩ := h.rest x
    rw [hx]
    exact hid.trans (hd.remoteId x)
  inStep x := by
    obtain ⟨s, wire, -, hx⟩ := h.rest x
    obtain ⟨s', wire', -, hx'⟩ := h.rest x.other
    have hin := h.brings x.other
    simp only [inbound, Side.other_other] at hin
    refine (hd.inStep x).congr ?_ ?_ ?_ ?_ fun _ _ => hin _ _
    · rw [hx]
    · rw [h.codec]
    · rw [h.codec]
    · rw [hx']

/-! ## One step -/

/-- Using a stream leaves the other end as it is. -/
theorem step_other {d d' : Conversation c} {x : Side} {e : Event} (h : step d e = some d')
    (he : (∃ m, e = .send x m) ∨ e = .poll x) : d' x.other = d x.other := by
  rcases he with ⟨m, rfl⟩ | rfl
  all_goals
    simp only [step] at h
    split at h
    · cases h
    · cases h
      rw [Function.update_of_ne (Side.other_ne x)]

/-- Sending keeps both ends in step. -/
theorem step_send (hr : c.rlp.Lawful) (hz : c.SnapLaws) (hn : p.sharedCapabilities.Pairwise (·.name < ·.name))
    {d d' : Conversation c} {x : Side} {m : PeerMessage} (hm : PeerStream.Carried c p m)
    (hd : Synced p first live ids d) (hlive : live x) (h : step d (.send x m) = some d')  :
    Synced p first live ids d' := by
  have hx := hd.sound x hlive
  have hi := hd.inStep x
  have hb := hd.inStep x.other
  rw [Side.other_other] at hb
  simp only [step, hx.ok, Bool.false_eq_true, ↓reduceIte, Option.some.injEq] at h
  subst h
  cases hdis : (d x).stream.disconnected with
  | true =>
    -- an end that is silent accepts nothing
    have hrun : ∃ e, (startSend c (ECIESStream.frames c) m).run (d x).stream = .error (.err e) (d x).stream := by
      unfold startSend
      rw [Prog.run_bind_ok (EStateM.run_get _), if_pos (by simp [hdis])]
      exact ⟨_, rfl⟩
    obtain ⟨e, hrun⟩ := hrun
    rw [hrun]
    simp only [Station.sending, Function.update_eq_self]
    exact hd
  | false =>
    obtain ⟨done, rest, bodies, half, hs, hdone, hw, hbodies, he⟩ := hi
    obtain ⟨body, hbody, hlen, hrun⟩ := run_startSend_body hr hz hn hm hdis hx.caps hx.snappy hw
    rw [hrun]
    refine synced_of x (fun _ => ⟨?_, ?_, ?_, ?_, ?_⟩) ?_ ?_ ?_
      ⟨done, rest ++ [m], bodies ++ [body], half.next c body, ?_, ?_, ?_, hbodies.snoc hbody hm, ?_⟩
      (hb.congr ?_ ?_ ?_ ?_ ?_) <;>
      simp only [Function.update_self, Function.update_of_ne (Side.other_ne x), Station.sending]
    · cases m <;> exact hx.caps
    · cases m <;> exact hx.snappy
    · exact hx.ok
    · have hflag := hx.flag
      rw [hdis] at hflag
      simp only [Bool.false_eq_true, false_iff, not_or, not_exists] at hflag
      cases m <;> simp [afterWire, hdis, hflag.1, hflag.2]
    · intro hended
      rw [hx.ended hended] at hdis
      cases hdis
    · exact hd.sound x.other
    · exact hd.remoteId x
    · exact hd.remoteId x.other
    · rw [hs, List.append_assoc]
    · exact hdone
    · exact writes_withEgress _ _
    · rw [← List.append_assoc, ← List.append_assoc]
      exact he.append hlen
    · exact fun _ _ he => he.writes _ _

/-- Polling keeps both ends in step. -/
theorem step_poll (hr : c.rlp.Lawful) (hz : c.SnapLaws) (hn : p.sharedCapabilities.Pairwise (·.name < ·.name))
    {d d' : Conversation c} {x : Side} (hd : Synced p first live ids d) (hlive : live x) (hfirst : first x.other = [])
    (h : step d (.poll x) = some d') : Synced p first live ids d' := by
  have hx := hd.sound x hlive
  have hi := hd.inStep x
  have ho := hd.sound x.other
  obtain ⟨done, rest, bodies, half, hs, hdone, hw, hbodies, he⟩ := hd.inStep x.other
  rw [Side.other_other] at hdone he
  rw [hfirst, List.nil_append] at he
  simp only [step, hx.ok, Bool.false_eq_true, ↓reduceIte, Option.some.injEq] at h
  subst h
  cases pollNext_hears hr hz hn hx.caps hx.snappy hbodies he with
  | silent hdis hrun =>
    rw [hrun]
    refine synced_of x (fun _ => ⟨?_, ?_, ?_, ?_, ?_⟩) ?_ ?_ ?_ (hi.congr ?_ ?_ ?_ ?_ ?_)
      ⟨done, rest, bodies, half, ?_, ?_, ?_, hbodies, ?_⟩ <;>
      simp only [Function.update_self, Function.update_of_ne (Side.other_ne x), Station.polled]
    · exact hx.caps
    · exact hx.snappy
    · exact hx.ok
    · exact hx.flag
    · exact fun _ => hdis
    · exact ho
    · exact hd.remoteId x
    · exact hd.remoteId x.other
    · exact fun _ _ he => he
    · exact hs
    · exact hdone
    · exact hw
    · rw [hfirst]
      exact he
  | wait t hdis hrun ht hb hk =>
    rw [hrun]
    refine synced_of x (fun _ => ⟨?_, ?_, ?_, ?_, ?_⟩) ?_ ?_ ?_ (hi.congr ?_ ?_ ?_ ?_ ?_)
      ⟨done, rest, _, half, ?_, ?_, ?_, hb, ?_⟩ <;>
      simp only [Function.update_self, Function.update_of_ne (Side.other_ne x), Station.polled]
    · exact hx.caps
    · exact hx.snappy
    · exact hx.ok
    · exact hx.flag
    · exact hx.ended
    · exact ho
    · exact hk.remoteId.trans (hd.remoteId x)
    · exact hd.remoteId x.other
    · exact hk.aes
    · exact hk.mac
    · rw [hk.written]
      exact fun _ _ he => he
    · exact hs
    · exact hdone
    · exact hw
    · rw [hfirst]
      exact ht
  | message t m rest' hdis hrest hrun ht hb hk =>
    have hflag := hx.flag
    rw [hdis] at hflag
    simp only [Bool.false_eq_true, false_iff, not_or, not_exists] at hflag
    have hended : (d x).ended = false := by
      rw [← Bool.not_eq_true]
      intro hended
      rw [hx.ended hended] at hdis
      cases hdis
    -- a `Disconnect` is heard as an error, and closes the end
    obtain ⟨closed, hpolled, hclosed⟩ : ∃ closed, (d x).polled
        ((pollNext c (ECIESStream.frames c)).run (d x).stream) = { d x with
          stream := { (d x).stream with stream := t, disconnected := closed }
          received := (d x).received ++ [heard c m] } ∧ (closed = true ↔ ∃ error, heard c m = .error error) := by
      rw [hrun]
      cases hheard : heard c m with
      | ok m' => exact ⟨false, by simp [Station.polled, hdis], by simp⟩
      | error e => exact ⟨true, by simp [Station.polled], by simp⟩
    rw [hpolled]
    refine synced_of x (fun _ => ⟨?_, ?_, ?_, ?_, ?_⟩) ?_ ?_ ?_ (hi.congr ?_ ?_ ?_ ?_ ?_)
      ⟨done ++ [m], rest', _, half, ?_, ?_, ?_, hb, ?_⟩ <;>
      simp only [Function.update_self, Function.update_of_ne (Side.other_ne x)]
    · exact hx.caps
    · exact hx.snappy
    · exact hx.ok
    · rw [hclosed]
      simp [hflag.1, hflag.2, eq_comm]
    · rw [hended]
      exact nofun
    · exact ho
    · exact hk.remoteId.trans (hd.remoteId x)
    · exact hd.remoteId x.other
    · exact hk.aes
    · exact hk.mac
    · rw [hk.written]
      exact fun _ _ he => he
    · rw [hs, hrest, List.append_assoc, List.singleton_append]
    · rw [hdone, List.map_append, List.map_singleton]
    · exact hw
    · rw [hfirst]
      exact ht

/-- Both ends talk, and no first frame is missing. -/
abbrev Talking (p : Agreed) (ids : Side → PeerId) (d : Conversation c) : Prop :=
  Synced p (fun _ => []) (fun _ => True) ids d

/-- **Every step keeps both ends in step.** -/
theorem step_talking (hr : c.rlp.Lawful) (hz : c.SnapLaws) (hn : p.sharedCapabilities.Pairwise (·.name < ·.name))
    (d : Conversation c) (e : Event) (d' : Conversation c) (hd : Talking p ids d) (he : e.Carried c p)
    (h : step d e = some d') : Talking p ids d' := by
  cases e with
  | send x m => exact step_send hr hz hn he hd trivial h
  | flush x => exact (moved_flush h).synced hd
  | deliver x n => exact (moved_deliver h).synced hd
  | poll x => exact step_poll hr hz hn hd trivial rfl h

theorem start_talking {aesSecret macSecret : H256} {client server : ECIES c}
    (h : Agree aesSecret macSecret client server) (remoteId : Side → PeerId) :
    Talking p remoteId (start p.sharedCapabilities p.snappy remoteId client server) := by
  obtain ⟨hc, -, -, hcw, hsr⟩ := h.forth
  obtain ⟨hs, -, -, hsw, hcr⟩ := h.back
  have hempty : ∀ m ∈ ([] : List Bytes), m.length < 2 ^ 24 := by simp
  have hsound : ∀ (id : PeerId) (ecies : ECIES c), Sound p (.start p.sharedCapabilities p.snappy id ecies) :=
    fun _ _ => ⟨rfl, rfl, rfl, by simp [Station.start], nofun⟩
  have hstep : ∀ (id id' : PeerId) (ecies ecies' : ECIES c) (half : Half), ecies.Writes half → ecies'.Reads half →
      InStep p [] (.start p.sharedCapabilities p.snappy id ecies) (.start p.sharedCapabilities p.snappy id' ecies') :=
    fun id id' ecies ecies' half hw hr => ⟨[], [], [], half, rfl, rfl, hw, .nil,
      ⟨.header rfl hr hempty, by simp [Station.start], rfl, fun _ _ => rfl⟩⟩
  exact synced_of .client (fun _ => hsound _ _) (fun _ => hsound _ _) rfl rfl (hstep _ _ _ _ hc hcw hsr)
    (hstep _ _ _ _ hs hsw hcr)

/-! ## What an end hears -/

/-- The messages of the other end that an end has heard. -/
def heardFrom (d : Conversation c) (x : Side) : List PeerMessage := (d x.other).sent.take (d x).received.length

/-- The end has sent no `Disconnect` and has heard none. -/
def Open (d : Conversation c) (x : Side) : Prop :=
  ∀ reason, .disconnect reason ∉ (d x).sent ∧ .disconnect reason ∉ heardFrom d x

/-- An end has heard an initial part of what the other has sent. It sees the end of the stream only when it is not open
any more; while it is open, and all that the other has sent has arrived, its next poll returns the next message. -/
structure Delivers (d : Conversation c) (x : Side) : Prop where
  ok : (d x).failed = false
  received : (d x).received = (heardFrom d x).map (heard c)
  ended : (d x).ended = true → ¬Open d x
  next : Open d x → (d x.other).stream.stream.written = [] → (d x).wire = [] → ∀ d', step d (.poll x) = some d' →
    (d' x).received = ((d x.other).sent.take ((d x).received.length + 1)).map (heard c)

/-- An end hears an error for a `Disconnect` only. -/
theorem heard_eq_error {m : PeerMessage} : (∃ e, heard c m = .error e) ↔ ∃ reason, m = .disconnect reason := by
  cases m <;> simp [heard]

theorem Sound.open_iff {d : Conversation c} {x : Side} (hx : Sound p (d x))
    (hrecv : (d x).received = (heardFrom d x).map (heard c)) : Open d x ↔ (d x).stream.disconnected = false := by
  rw [← Bool.not_eq_true, hx.flag, hrecv]
  simp only [Open, not_or, not_exists, List.mem_map, not_and]
  constructor
  · intro h
    refine ⟨fun reason => (h reason).1, fun e m hm he => ?_⟩
    obtain ⟨reason, rfl⟩ := heard_eq_error.1 ⟨e, he⟩
    exact (h reason).2 hm
  · exact fun h reason => ⟨h.1 reason, fun hm => h.2 _ _ hm rfl⟩

/-- An end that talks hears what it should. -/
theorem Synced.delivers (hr : c.rlp.Lawful) (hz : c.SnapLaws) (hn : p.sharedCapabilities.Pairwise (·.name < ·.name))
    {d : Conversation c} (hd : Synced p first live ids d) {x : Side} (hlive : live x) (hfirst : first x.other = []) :
    Delivers d x := by
  have hx := hd.sound x hlive
  obtain ⟨done, rest, bodies, half, hs, hdone, hw, hbodies, he⟩ := hd.inStep x.other
  rw [Side.other_other] at hdone he
  rw [hfirst, List.nil_append] at he
  have hlen : (d x).received.length = done.length := by rw [hdone, List.length_map]
  have hfrom : heardFrom d x = done := by rw [heardFrom, hlen, hs, List.take_left]
  have hrecv : (d x).received = (heardFrom d x).map (heard c) := by rw [hfrom, hdone]
  refine ⟨hx.ok, hrecv, fun hended hopen => ?_, fun hopen hwritten hwire d' h => ?_⟩
  · have := (hx.open_iff hrecv).1 hopen
    rw [hx.ended hended] at this
    cases this
  · have hdis := (hx.open_iff hrecv).1 hopen
    simp only [step, hx.ok, Bool.false_eq_true, ↓reduceIte, Option.some.injEq] at h
    subst h
    rw [Function.update_self, hlen, hs]
    cases pollNext_hears hr hz hn hx.caps hx.snappy hbodies he with
    | silent hsilent hrun =>
      rw [hdis] at hsilent
      cases hsilent
    | wait t _ hrun ht hb hk hall =>
      rw [hrun, hall (by rw [hwritten, hwire, List.append_nil]), List.append_nil, List.take_of_length_le (by omega)]
      exact hdone
    | message t m rest' _ hrest hrun ht hb hk =>
      rw [hrun, hrest, List.take_length_add_append, List.take_succ_cons, List.take_zero, List.map_append,
        List.map_singleton, ← hdone]
      cases heard c m <;> rfl

/-! ## A message that passes -/


/-- A message is flushed and arrives in two parts, and the other end polls after each. -/
def passing (x : Side) (m : PeerMessage) (k l : Nat) : List Event :=
  [.send x m, .flush x, .deliver x.other k, .poll x.other, .deliver x.other l, .poll x.other]

/-- An open end accepts a message. -/
theorem exists_send (hr : c.rlp.Lawful) (hz : c.SnapLaws) (hn : p.sharedCapabilities.Pairwise (·.name < ·.name))
    {d : Conversation c} {x : Side} {m : PeerMessage} (hd : Talking p ids d) (hm : PeerStream.Carried c p m)
    (hdis : (d x).stream.disconnected = false) {body : Bytes} (hbody : frameBody c p m = some body) :
    ∃ (half : Half) (d' : Conversation c), step d (.send x m) = some d' ∧ (d' x).sent = (d x).sent ++ [m] ∧
      (d' x).stream.stream.written = (d x).stream.stream.written ++ half.frame c body := by
  have hx := hd.sound x trivial
  obtain ⟨-, -, -, half, -, -, hw, -⟩ := hd.inStep x
  obtain ⟨body', hbody', -, hrun⟩ := run_startSend_body hr hz hn hm hdis hx.caps hx.snappy hw
  obtain rfl : body = body' := Option.some.inj (hbody.symm.trans hbody')
  refine ⟨half, _, if_neg (by simp [hx.ok]), ?_⟩
  rw [Function.update_self, hrun]
  exact ⟨rfl, rfl⟩

theorem exists_flush (d : Conversation c) (x : Side) :
    ∃ d', step d (.flush x) = some d' ∧ (∀ y, (d' y).sent = (d y).sent) ∧ (d' x).stream.stream.written = [] ∧
      (d' x.other).stream = (d x.other).stream ∧
      (d' x.other).wire = (d x.other).wire ++ (d x).stream.stream.written := by
  refine ⟨_, rfl, fun y => ?_, ?_, ?_, ?_⟩
  · rcases Side.eq_or_eq_other y x with rfl | rfl
    · rw [Function.update_of_ne (Side.other_ne y).symm, Function.update_self]
      rfl
    · rw [Function.update_self]
  · rw [Function.update_of_ne (Side.other_ne x).symm, Function.update_self]
    rfl
  · rw [Function.update_self]
  · rw [Function.update_self]

theorem exists_deliver {d : Conversation c} {x : Side} {n : Nat} (hn : 0 < n) (hlen : n ≤ (d x).wire.length) :
    ∃ d', step d (.deliver x n) = some d' ∧ (d' x).sent = (d x).sent ∧
      (d' x).stream.stream.written = (d x).stream.stream.written ∧ (d' x).wire = (d x).wire.drop n ∧
      d' x.other = d x.other := by
  refine ⟨_, if_pos ⟨hn, hlen⟩, ?_, ?_, ?_, Function.update_of_ne (Side.other_ne x) _ _⟩ <;>
    · rw [Function.update_self]
      rfl

/-- A poll leaves what has been sent and what is on its way. -/
theorem polled_rest (e : Station c)
    (r : EStateM.Result (Stop IoError) (PeerStream (ECIESStream c)) (Poll (Option PeerMessage))) :
    (e.polled r).sent = e.sent ∧ (e.polled r).wire = e.wire := by
  rcases r with ⟨_ | _ | _, _⟩ | ⟨_ | _, _⟩ <;> exact ⟨rfl, rfl⟩

theorem exists_poll {d : Conversation c} (hd : Talking p ids d) (x : Side) :
    ∃ d', step d (.poll x) = some d' ∧ (d' x).sent = (d x).sent ∧ (d' x).wire = (d x).wire ∧
      d' x.other = d x.other := by
  have hstep : step d (.poll x) = some _ := if_neg (by simp [(hd.sound x trivial).ok])
  refine ⟨_, hstep, ?_⟩
  rw [Function.update_self, step_other hstep (.inr rfl)]
  exact ⟨(polled_rest _ _).1, (polled_rest _ _).2, rfl⟩

/-- **A message passes**, however its frame is cut in two. -/
theorem run_passing (hr : c.rlp.Lawful) (hz : c.SnapLaws) (hn : p.sharedCapabilities.Pairwise (·.name < ·.name))
    {d : Conversation c} (hd : Talking p ids d) {x : Side} (hsent : ∀ y, (d y).sent = [])
    (hopen : (d x).stream.disconnected = false) (hwritten : (d x).stream.stream.written = [])
    (hwire : (d x.other).wire = []) {m : PeerMessage} (hm : PeerStream.Carried c p m)
    (hm' : ∀ reason, m ≠ .disconnect reason) {body : Bytes} (hbody : frameBody c p m = some body) {k l : Nat}
    (hk : 0 < k) (hl : 0 < l) (hkl : k + l = headerLen + (paddedLen body.length + 16)) :
    ∃ d', Runs.run step d (passing x m k l) = some d' ∧ (d' x.other).received = [heard c m] := by
  have htalk : ∀ {d d'} (e : Event), Talking p ids d → e.Carried c p → step d e = some d' → Talking p ids d' :=
    fun e hd he h => step_talking hr hz hn _ e _ hd he h
  -- the frame is written, and handed to the network
  obtain ⟨half, d₁, h₁, hsent₁, hwritten₁⟩ := exists_send hr hz hn hd hm hopen hbody
  have hother₁ := step_other h₁ (.inl ⟨m, rfl⟩)
  have hd₁ := htalk (.send x m) hd hm h₁
  obtain ⟨d₂, h₂, hsent₂, hwritten₂, -, hwire₂⟩ := exists_flush d₁ x
  have hd₂ := htalk (.flush x) hd₁ trivial h₂
  rw [hwritten₁, hwritten, hother₁, hwire, List.nil_append, List.nil_append] at hwire₂
  have hlen : (d₂ x.other).wire.length = k + l := by
    rw [hwire₂, Half.frame, List.length_append, Half.length_headerBytes, Half.length_bodyBytes, hkl]
  -- its first part arrives
  obtain ⟨d₃, h₃, hsent₃, -, hwire₃, hx₃⟩ := exists_deliver (d := d₂) (x := x.other) hk (by omega)
  have hd₃ := htalk (.deliver x.other k) hd₂ trivial h₃
  obtain ⟨d₄, h₄, hsent₄, hwire₄, hx₄⟩ := exists_poll hd₃ x.other
  have hd₄ := htalk (.poll x.other) hd₃ trivial h₄
  -- and the rest of it
  have hlen₄ : (d₄ x.other).wire.length = l := by
    rw [hwire₄, hwire₃, List.length_drop, hlen, Nat.add_sub_cancel_left]
  obtain ⟨d₅, h₅, hsent₅, -, hwire₅, hx₅⟩ := exists_deliver (d := d₄) (x := x.other) hl hlen₄.ge
  have hd₅ := htalk (.deliver x.other l) hd₄ trivial h₅
  obtain ⟨d₆, h₆, -⟩ := exists_poll hd₅ x.other
  refine ⟨d₆, ?_, ?_⟩
  · simp only [passing, Runs.run_cons, Runs.run_nil, h₁, h₂, h₃, h₄, h₅, h₆, Option.bind_some]
  have hsender : d₅ x = d₂ x := by
    rw [Side.other_other] at hx₃ hx₄ hx₅
    rw [hx₅, hx₄, hx₃]
  have hall : (d₅ x).sent = [m] := by rw [hsender, hsent₂, hsent₁, hsent, List.nil_append]
  have hdel := hd₅.delivers hr hz hn (x := x.other) trivial rfl
  have hopen₅ : Open d₅ x.other := by
    refine fun reason => ⟨?_, fun hmem => ?_⟩
    · rw [hsent₅, hsent₄, hsent₃, hsent₂, hother₁, hsent]
      exact List.not_mem_nil
    · have hmem := List.mem_of_mem_take hmem
      rw [Side.other_other, hall] at hmem
      exact hm' reason (List.mem_singleton.1 hmem).symm
  have hnext := hdel.next hopen₅ (by rw [Side.other_other, hsender, hwritten₂])
    (List.eq_nil_of_length_eq_zero (by rw [hwire₅, List.length_drop, hlen₄, Nat.sub_self])) d₆ h₆
  rw [hnext, Side.other_other, hall, List.take_succ_cons, List.take_nil, List.map_singleton]

/-! ## All that is on its way -/

/-- Bytes move. -/
def Event.Moves : Event → Prop
  | .flush _ | .deliver _ _ => True
  | .send _ _ | .poll _ => False

/-- All that is on its way to an end arrives. -/
theorem exists_arrived (d : Conversation c) (x : Side) : ∃ es d', (∀ e ∈ es, Event.Moves e) ∧
    Runs.run step d es = some d' ∧ (d' x).wire = [] ∧
      (d' x).stream.stream.written = (d x).stream.stream.written ∧ d' x.other = d x.other := by
  by_cases hwire : (d x).wire = []
  · exact ⟨[], d, nofun, rfl, hwire, rfl, rfl⟩
  · obtain ⟨d', h, -, hwritten, hwire', hother⟩ := exists_deliver (List.length_pos_iff.2 hwire) le_rfl
    refine ⟨[.deliver x (d x).wire.length], d', List.forall_mem_singleton.2 trivial, ?_, ?_, hwritten, hother⟩
    · rw [Runs.run_cons, h, Option.bind_some, Runs.run_nil]
    · rw [hwire', List.drop_length]

/-- All that was written arrives. -/
theorem exists_settled (d : Conversation c) : ∃ es d', (∀ e ∈ es, Event.Moves e) ∧ Runs.run step d es = some d' ∧
    ∀ x, (d' x).wire = [] ∧ (d' x).stream.stream.written = [] := by
  obtain ⟨d₁, h₁, -, hclient, -, -⟩ := exists_flush d .client
  obtain ⟨d₂, h₂, -, hserver, hstream, -⟩ := exists_flush d₁ .server
  obtain ⟨es, d₃, hes, h₃, hwire, hwritten, hother⟩ := exists_arrived d₂ .client
  obtain ⟨fs, d₄, hfs, h₄, hwire', hwritten', hother'⟩ := exists_arrived d₃ .server
  refine ⟨.flush .client :: .flush .server :: (es ++ fs), d₄, ?_, ?_, ?_⟩
  · exact List.forall_mem_cons.2 ⟨trivial, List.forall_mem_cons.2 ⟨trivial, List.forall_mem_append.2 ⟨hes, hfs⟩⟩⟩
  · rw [Runs.run_cons, h₁, Option.bind_some, Runs.run_cons, h₂, Option.bind_some, Runs.run_append, h₃,
      Option.bind_some, h₄]
  · rintro (_ | _)
    · have hclient₄ : d₄ .client = d₃ .client := hother'
      have hstream₂ : (d₂ .client).stream = (d₁ .client).stream := hstream
      rw [hclient₄]
      exact ⟨hwire, by rw [hwritten, hstream₂, hclient]⟩
    · have hserver₃ : d₃ .server = d₂ .server := hother
      exact ⟨hwire', by rw [hwritten', hserver₃, hserver]⟩

/-! ## The conversation -/

/-- **A conversation is correct**: after the handshake of any two parties, in every run of messages that the connection
carries, in both directions, every end hears what the other has sent, in order, and the whole of it once it has
arrived. -/
theorem conversation_correct (h : c.SecpLaws) (hr : c.rlp.Lawful) (hz : c.SnapLaws) (parties : Parties c)
    (hn : p.sharedCapabilities.Pairwise (·.name < ·.name)) :
    ∃ client server aesSecret macSecret, handshake parties = some (client, server) ∧
      Agree aesSecret macSecret client server ∧
      ∀ (remoteId : Side → PeerId) (es : List Event) (d : Conversation c), (∀ e ∈ es, e.Carried c p) →
        Runs.run step (start p.sharedCapabilities p.snappy remoteId client server) es = some d → ∀ x, Delivers d x := by
  obtain ⟨client, server, aesSecret, macSecret, hh, ha⟩ := handshake_agrees h hr parties
  refine ⟨client, server, aesSecret, macSecret, hh, ha, fun remoteId es d hes hrun x => ?_⟩
  have hsync : Talking p remoteId d := Runs.Along.invariant (step_talking hr hz hn) es
    (Runs.Along.of_mem fun e he _ => hes e he) (start_talking ha remoteId) hrun
  exact hsync.delivers hr hz hn trivial rfl

/-- The example parties, with two capabilities and compression, and a ping of the client. -/
theorem conversation_example : ∃ client server aesSecret macSecret,
    handshake exampleParties = some (client, server) ∧ Agree aesSecret macSecret client server ∧
    ∀ remoteId : Side → PeerId,
      (∀ (es : List Event) (d : Conversation Software.crates),
        (∀ e ∈ es, e.Carried Software.crates ⟨(), [eth, les], true, false⟩) →
        Runs.run step (start [eth, les] true remoteId client server) es = some d → ∀ x, Delivers d x) ∧
      ∃ d, Runs.run step (start [eth, les] true remoteId client server) (passing .client .ping 20 44) = some d ∧
        (d .server).received = [.ok .ping] := by
  obtain ⟨client, server, aesSecret, macSecret, hh, ha, hdelivers⟩ := conversation_correct
    (p := ⟨(), [eth, les], true, false⟩) Software.secpLaws Rlp.standard_lawful Software.snapLaws exampleParties
    ethLes_negotiated.ascending
  refine ⟨client, server, aesSecret, macSecret, hh, ha, fun remoteId => ⟨hdelivers remoteId, ?_⟩⟩
  have hbody : frameBody Software.crates (⟨(), [eth, les], true, false⟩ : Agreed) .ping = some _ := rfl
  have hcarried : PeerStream.Carried Software.crates (⟨(), [eth, les], true, false⟩ : Agreed) .ping :=
    ⟨fun _ h => (by cases h), fun _ h => Option.some.inj (hbody.symm.trans h) ▸ by decide⟩
  exact run_passing Rlp.standard_lawful Software.snapLaws ethLes_negotiated.ascending (start_talking ha remoteId)
    (x := .client) (fun y => by cases y <;> rfl) rfl rfl rfl hcarried (fun _ h => by cases h) hbody (by decide)
    (by decide) (by decide)

end Conversation

end EthereumSentry
