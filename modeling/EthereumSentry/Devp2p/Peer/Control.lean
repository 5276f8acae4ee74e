import EthereumSentry.Devp2p.Peer.Mux
import EthereumSentry.Lib.Runs

/-!
# Control messages and shutdown

One end passes control messages to `start_send`, the other end polls (`Link.step`). The sender writes the reason of a
`Disconnect` as a bare integer, and the receiver looks for it inside a list, so the receiver never returns the reason:
its item is an error (`step_tracks`). Everything else is as it should be: pings and pongs come through in order, the
items end after the first `Disconnect` (`items_eq`), and an end that has sent or received one is silent
(`disconnect_silences`). So the messages are delivered exactly when no `Disconnect` is among them
(`control_delivered`).
-/

set_option autoImplicit false

namespace EthereumSentry

/-- The messages of the base protocol. -/
inductive Control where
  | ping
  | pong
  | disconnect (reason : DisconnectReason)
  deriving DecidableEq, Repr

namespace Control

/-- The message that is passed to `start_send`. -/
def message : Control → PeerMessage
  | ping => .ping
  | pong => .pong
  | disconnect reason => .disconnect reason

/-- The message id on the wire. -/
def wireId : Control → Nat
  | disconnect _ => 0x01
  | ping => 0x02
  | pong => 0x03

/-- The payload on the wire. -/
def payload (c : Crates) : Control → Bytes
  | disconnect reason => c.rlp.encodeUint reason.toU8
  | ping => emptyListRlp
  | pong => emptyListRlp

/-- The messages end with a `Disconnect`, or go on. -/
def HasDisconnect (ms : List Control) : Prop := ∃ reason, disconnect reason ∈ ms

/-- The messages up to and including the first `Disconnect`. -/
def upToDisconnect : List Control → List Control
  | [] => []
  | disconnect reason :: _ => [disconnect reason]
  | ping :: ms => ping :: upToDisconnect ms
  | pong :: ms => pong :: upToDisconnect ms

theorem upToDisconnect_eq : ∀ {ms : List Control}, ¬HasDisconnect ms → upToDisconnect ms = ms
  | [], _ => rfl
  | .ping :: ms, h => by rw [upToDisconnect, upToDisconnect_eq fun ⟨r, hr⟩ => h ⟨r, by simp [hr]⟩]
  | .pong :: ms, h => by rw [upToDisconnect, upToDisconnect_eq fun ⟨r, hr⟩ => h ⟨r, by simp [hr]⟩]
  | .disconnect reason :: ms, h => absurd ⟨reason, by simp⟩ h

theorem hasDisconnect_append {ms : List Control} {m : Control} :
    HasDisconnect (ms ++ [m]) ↔ HasDisconnect ms ∨ ∃ reason, m = disconnect reason := by
  simp only [HasDisconnect, List.mem_append, List.mem_singleton, exists_or, eq_comm]

/-- One more message, before any `Disconnect`. -/
theorem upToDisconnect_snoc : ∀ {ms : List Control} (m : Control), ¬HasDisconnect ms →
    upToDisconnect (ms ++ [m]) = ms ++ [m]
  | [], m, _ => by cases m <;> rfl
  | .ping :: ms, m, h => by
    rw [List.cons_append, upToDisconnect, upToDisconnect_snoc m fun ⟨r, hr⟩ => h ⟨r, by simp [hr]⟩]
  | .pong :: ms, m, h => by
    rw [List.cons_append, upToDisconnect, upToDisconnect_snoc m fun ⟨r, hr⟩ => h ⟨r, by simp [hr]⟩]
  | .disconnect reason :: ms, _, h => absurd ⟨reason, by simp⟩ h

/-- What follows a `Disconnect` does not count. -/
theorem upToDisconnect_append : ∀ {ms : List Control} (m : Control), HasDisconnect ms →
    upToDisconnect (ms ++ [m]) = upToDisconnect ms
  | [], _, h => by obtain ⟨r, hr⟩ := h; cases hr
  | .ping :: ms, m, ⟨r, hr⟩ => by
    rw [List.cons_append, upToDisconnect, upToDisconnect, upToDisconnect_append m ⟨r, by simpa using hr⟩]
  | .pong :: ms, m, ⟨r, hr⟩ => by
    rw [List.cons_append, upToDisconnect, upToDisconnect, upToDisconnect_append m ⟨r, by simpa using hr⟩]
  | .disconnect reason :: ms, m, _ => rfl

/-- The first `Disconnect` is the last message that counts. -/
theorem disconnect_at : ∀ {ms : List Control} {i : Nat} {reason : DisconnectReason},
    (upToDisconnect ms)[i]? = some (.disconnect reason) → i + 1 = (upToDisconnect ms).length ∧ HasDisconnect ms
  | .ping :: ms, i + 1, reason, h => by
    obtain ⟨h₁, r, hr⟩ := disconnect_at (show (upToDisconnect ms)[i]? = _ by simpa [upToDisconnect] using h)
    exact ⟨by simp [upToDisconnect, ← h₁], r, by simp [hr]⟩
  | .pong :: ms, i + 1, reason, h => by
    obtain ⟨h₁, r, hr⟩ := disconnect_at (show (upToDisconnect ms)[i]? = _ by simpa [upToDisconnect] using h)
    exact ⟨by simp [upToDisconnect, ← h₁], r, by simp [hr]⟩
  | .disconnect r :: ms, 0, reason, _ => ⟨rfl, r, by simp⟩

/-- A `Disconnect` that is passed is at the end of the messages that count. -/
theorem exists_disconnect_at : ∀ {ms : List Control}, HasDisconnect ms →
    ∃ (i : Nat) (reason : DisconnectReason), (upToDisconnect ms)[i]? = some (.disconnect reason)
  | [], h => by obtain ⟨r, hr⟩ := h; cases hr
  | .ping :: ms, ⟨r, hr⟩ => by
    obtain ⟨i, reason, h⟩ := exists_disconnect_at (show HasDisconnect ms from ⟨r, by simpa using hr⟩)
    exact ⟨i + 1, reason, by simpa [upToDisconnect] using h⟩
  | .pong :: ms, ⟨r, hr⟩ => by
    obtain ⟨i, reason, h⟩ := exists_disconnect_at (show HasDisconnect ms from ⟨r, by simpa using hr⟩)
    exact ⟨i + 1, reason, by simpa [upToDisconnect] using h⟩
  | .disconnect reason :: ms, _ => ⟨0, reason, rfl⟩

end Control

namespace PeerStream

variable {c : Crates}

/-! ## One message -/

/-- The frame of a control message. -/
def controlFrame (c : Crates) (snappy : Bool) (m : Control) : Bytes :=
  c.rlp.encodeUint m.wireId ++ (wirePayload c snappy (m.payload c)).getD []

/-- What the receiver makes of the frame, and of the end of the frames. -/
def answer (c : Crates) : Option Control → Except IoError (Option PeerMessage)
  | some (.disconnect reason) =>
    .error (.other s!"peer disconnected with malformed message: {c.hexEncode (c.rlp.encodeUint reason.toU8)}")
  | some m => .ok (some m.message)
  | none => .ok none

/-- The flag after a control message. -/
def flagged (disconnected : Bool) : Control → Bool
  | .disconnect _ => true
  | _ => disconnected

theorem controlPayload_wire (hr : c.rlp.Lawful) (hz : c.SnapLaws) (snappy : Bool) (m : Control) :
    (m.payload c).length ≤ maxPayloadSize ∧ wirePayload c snappy (m.payload c) =
      some ((wirePayload c snappy (m.payload c)).getD []) := by
  have hl : (m.payload c).length ≤ maxPayloadSize := by
    cases m with
    | disconnect reason =>
      have := reason.toU8_le
      exact (hr.length_uint reason.toU8 (by omega)).trans (by decide)
    | ping => exact show 1 ≤ maxPayloadSize by decide
    | pong => exact show 1 ≤ maxPayloadSize by decide
  obtain ⟨out, hout⟩ := exists_wirePayload hz snappy hl
  exact ⟨hl, by rw [hout]; rfl⟩

/-- A connected end writes one frame, and remembers a `Disconnect`. -/
theorem run_startSend_control (hr : c.rlp.Lawful) (hz : c.SnapLaws) {s : PeerStream FrameQueue}
    (hd : s.disconnected = false) (m : Control) :
    (startSend c FrameQueue.frames m.message).run s = .ok ()
      { s with
        stream := { s.stream with sent := s.stream.sent ++ [controlFrame c s.snappy m] }
        disconnected := flagged s.disconnected m } := by
  have hw := (controlPayload_wire hr hz s.snappy m).2
  unfold startSend
  rw [Prog.run_bind_ok (EStateM.run_get s), if_neg (by simp [hd])]
  have hwire : (toWire c m.message).run s =
      .ok (some (m.wireId, m.payload c)) { s with disconnected := flagged s.disconnected m } := by
    cases m <;> rfl
  rw [Prog.run_bind_ok hwire]
  dsimp only
  rw [Prog.run_bind_ok (run_writePayload (s := { s with disconnected := flagged s.disconnected m }) hw)]
  rfl

/-- The reason of a `Disconnect` is not inside a list. -/
theorem readReason_none (hr : c.rlp.Lawful) (reason : DisconnectReason) :
    readReason c (c.rlp.encodeUint reason.toU8) = none := by
  have := reason.toU8_le
  rw [readReason, hr.itemAt_uint _ _ (by omega)]
  rfl

/-- How the receiver takes the frame of a control message. -/
theorem run_onFrame_control (hr : c.rlp.Lawful) (hz : c.SnapLaws) (s : PeerStream FrameQueue) (m : Control) :
    (onFrame c (controlFrame c s.snappy m)).run s = match answer c (some m) with
      | .ok (some msg) => .ok msg { s with disconnected := flagged s.disconnected m }
      | .ok none => .error .panic s
      | .error e => .error (.err e) { s with disconnected := flagged s.disconnected m } := by
  obtain ⟨hl, hw⟩ := controlPayload_wire hr hz s.snappy m
  have hbyte : 0 < m.wireId ∧ m.wireId < 0x10 := by cases m <;> simp [Control.wireId]
  rw [controlFrame, run_onFrame_byte hr hz hbyte.1 (by omega) hl hw, if_pos hbyte.2]
  cases m with
  | disconnect reason =>
    simp only [Control.wireId, Control.payload, readReserved]
    rw [Prog.run_bind_ok (EStateM.run_modify _ _), readReason_none hr]
    rfl
  | ping => rfl
  | pong => rfl

/-- An end that has sent or received a `Disconnect` writes nothing and yields nothing. -/
def Silent (c : Crates) (s : PeerStream FrameQueue) : Prop :=
  (∀ m, ∃ e, (startSend c FrameQueue.frames m).run s = .error (.err e) s) ∧
    (pollNext c FrameQueue.frames).run s = .ok (.ready none) s

theorem silent_of_disconnected {s : PeerStream FrameQueue} (h : s.disconnected = true) : Silent c s := by
  constructor
  · intro m
    unfold startSend
    rw [Prog.run_bind_ok (EStateM.run_get s), if_pos (by simp [h])]
    exact ⟨_, rfl⟩
  · unfold pollNext
    rw [Prog.run_bind_ok (EStateM.run_get s), if_pos (by simp [h])]
    rfl

/-- Polling when no frame has arrived. -/
theorem run_pollNext_empty {s : PeerStream FrameQueue} (hd : s.disconnected = false) (ha : s.stream.arrived = []) :
    (pollNext c FrameQueue.frames).run s = .ok (if s.stream.closed then .ready none else .pending) s := by
  have hq : FrameQueue.frames.pollNext.run s.stream =
      .ok (if s.stream.closed then .ready none else .pending) s.stream := by
    simp only [FrameQueue.frames]
    rw [Prog.run_bind_ok (EStateM.run_get _), ha]
    dsimp only
    split <;> rfl
  unfold pollNext
  rw [Prog.run_bind_ok (EStateM.run_get s), if_neg (by simp [hd]), inStream, Prog.run_bind_ok (Prog.run_zoom_ok hq)]
  cases s.stream.closed <;> rfl

/-- Polling when a control message has arrived. -/
theorem run_pollNext_control (hr : c.rlp.Lawful) (hz : c.SnapLaws) {s : PeerStream FrameQueue} {m : Control}
    {rest : List Bytes} (hd : s.disconnected = false) (ha : s.stream.arrived = controlFrame c s.snappy m :: rest) :
    (pollNext c FrameQueue.frames).run s =
      match answer c (some m) with
      | .ok p => .ok (.ready p)
        { s with stream := { s.stream with arrived := rest }, disconnected := flagged s.disconnected m }
      | .error e => .error (.err e)
        { s with stream := { s.stream with arrived := rest }, disconnected := flagged s.disconnected m } := by
  have hq : FrameQueue.frames.pollNext.run s.stream =
      .ok (.ready (some (controlFrame c s.snappy m))) { s.stream with arrived := rest } := by
    simp only [FrameQueue.frames]
    rw [Prog.run_bind_ok (EStateM.run_get _), ha]
    rfl
  have hf := run_onFrame_control hr hz { s with stream := { s.stream with arrived := rest } } m
  dsimp only at hf
  unfold pollNext
  rw [Prog.run_bind_ok (EStateM.run_get s), if_neg (by simp [hd]), inStream, Prog.run_bind_ok (Prog.run_zoom_ok hq)]
  dsimp only [id]
  cases m with
  | disconnect reason => exact Prog.run_bind_err hf _
  | ping => exact Prog.run_bind_ok hf _
  | pong => exact Prog.run_bind_ok hf _

end PeerStream

open PeerStream Control

/-! ## Runs -/

/-- One end that sends control messages and one that receives them. -/
structure Link where
  tx : PeerStream FrameQueue
  rx : PeerStream FrameQueue
  /-- The messages that were passed to `start_send`. -/
  passed : List Control
  /-- The results of `poll_next` that were ready. -/
  items : List (Except IoError (Option PeerMessage))
  /-- A call has panicked. -/
  failed : Bool

namespace Link

inductive Event where
  /-- Pass a message to `start_send`; what it writes travels to the other end. -/
  | send (m : Control)
  /-- The sender closes the connection. -/
  | close
  /-- The receiver polls. -/
  | poll

/-- Two open ends. -/
def start (caps : List CapabilityInfo) (snappy : Bool) : Link :=
  ⟨⟨⟨[], false, []⟩, caps, snappy, false⟩, ⟨⟨[], false, []⟩, caps, snappy, false⟩, [], [], false⟩

/-- After `start_send`. -/
def sent (l : Link) (m : Control) (tx : PeerStream FrameQueue) : Link := { l with
  tx := { tx with stream := { tx.stream with sent := [] } }
  rx := { l.rx with stream := { l.rx.stream with arrived := l.rx.stream.arrived ++ tx.stream.sent } }
  passed := l.passed ++ [m] }

def step (c : Crates) (l : Link) : Event → Option Link
  | .send m =>
    if l.rx.stream.closed then none
    else match (startSend c FrameQueue.frames m.message).run l.tx with
      | .ok _ tx | .error (.err _) tx => some (l.sent m tx)
      | .error .panic tx => some { l.sent m tx with failed := true }
  | .close => some { l with rx := { l.rx with stream := { l.rx.stream with closed := true } } }
  | .poll =>
    match (pollNext c FrameQueue.frames).run l.rx with
    | .ok .pending rx => some { l with rx := rx }
    | .ok (.ready p) rx => some { l with rx := rx, items := l.items ++ [.ok p] }
    | .error (.err e) rx => some { l with rx := rx, items := l.items ++ [.error e] }
    | .error .panic rx => some { l with rx := rx, failed := true }

/-- What the messages that were passed, and the results that were ready, say about both ends and the wire. -/
structure Tracks (c : Crates) (l : Link) : Prop where
  ok : l.failed = false
  flushed : l.tx.stream.sent = []
  snappy : l.tx.snappy = l.rx.snappy
  txFlag : l.tx.disconnected = true ↔ HasDisconnect l.passed
  rxFlag : l.rx.disconnected = true ↔ HasDisconnect l.passed ∧ (upToDisconnect l.passed).length ≤ l.items.length
  arrived : l.rx.stream.arrived = ((upToDisconnect l.passed).drop l.items.length).map (controlFrame c l.rx.snappy)
  items : ∀ (i : Nat) (x : Except IoError (Option PeerMessage)), l.items[i]? = some x →
    x = answer c (upToDisconnect l.passed)[i]?
  ended : l.items.length ≤ (upToDisconnect l.passed).length ∨ l.rx.stream.closed = true ∨ HasDisconnect l.passed

variable {c : Crates}

theorem start_tracks (caps : List CapabilityInfo) (snappy : Bool) : Tracks c (start caps snappy) where
  ok := rfl
  flushed := rfl
  snappy := rfl
  txFlag := by simp [start, HasDisconnect]
  rxFlag := by simp [start, HasDisconnect]
  arrived := rfl
  items := by simp [start]
  ended := .inl (by simp [start])

/-- One more result. -/
theorem items_snoc {items : List (Except IoError (Option PeerMessage))} {ms : List Control}
    {x : Except IoError (Option PeerMessage)} (h : ∀ (i : Nat) y, items[i]? = some y → y = answer c ms[i]?)
    (hx : x = answer c ms[items.length]?) :
    ∀ (i : Nat) y, (items ++ [x])[i]? = some y → y = answer c ms[i]? := by
  intro i y hy
  rcases lt_trichotomy i items.length with hi | hi | hi
  · rw [List.getElem?_append_left hi] at hy
    exact h i y hy
  · subst hi
    simp only [List.getElem?_concat_length, Option.some.injEq] at hy
    rw [← hy, hx]
  · rw [List.getElem?_eq_none (by simp; omega)] at hy
    cases hy

/-- Passing a message keeps track. -/
theorem step_send (hr : c.rlp.Lawful) (hz : c.SnapLaws) {l l' : Link} {m : Control} (hl : Tracks c l)
    (h : step c l (.send m) = some l') : Tracks c l' := by
  simp only [step] at h
  split at h
  · cases h
  rename_i hclosed
  by_cases hd : HasDisconnect l.passed
  · -- the sender is silent, and the message does not count
    obtain ⟨e, he⟩ := (silent_of_disconnected (c := c) (hl.txFlag.2 hd)).1 m.message
    simp only [he, Option.some.injEq] at h
    subst h
    have hup := upToDisconnect_append m hd
    have hhas : HasDisconnect (l.passed ++ [m]) := hasDisconnect_append.2 (.inl hd)
    exact {
      ok := hl.ok
      flushed := rfl
      snappy := hl.snappy
      txFlag := by simpa [sent, hhas] using hl.txFlag.2 hd
      rxFlag := by simpa [sent, hhas, hd, hup] using hl.rxFlag
      arrived := by simpa [sent, hup, hl.flushed] using hl.arrived
      items := by simpa only [sent, hup] using hl.items
      ended := .inr (.inr hhas) }
  · -- one more frame travels
    have htx : l.tx.disconnected = false := by
      rw [← Bool.not_eq_true]
      exact fun h => hd (hl.txFlag.1 h)
    simp only [run_startSend_control hr hz htx m, Option.some.injEq] at h
    subst h
    have hup : upToDisconnect (l.passed ++ [m]) = l.passed ++ [m] := upToDisconnect_snoc m hd
    have hold : upToDisconnect l.passed = l.passed := upToDisconnect_eq hd
    have hlen : l.items.length ≤ l.passed.length := by
      rcases hl.ended with h | h | h
      · rwa [hold] at h
      · exact absurd h hclosed
      · exact absurd h hd
    exact {
      ok := hl.ok
      flushed := rfl
      snappy := hl.snappy
      txFlag := by
        rw [sent, hasDisconnect_append]
        cases m <;> simp [flagged, htx, hd]
      rxFlag := iff_of_false (fun h => hd (hl.rxFlag.1 h).1) fun h => by
        have := h.2
        simp only [sent, hup, List.length_append, List.length_singleton] at this
        omega
      arrived := by
        simp only [sent, hl.arrived, hl.flushed, hup, hold, List.nil_append, hl.snappy]
        rw [List.drop_append_of_le_length hlen, List.map_append]
        rfl
      items := fun i x hx => by
        have hi : i < l.passed.length := by
          have := (List.getElem?_eq_some_iff.1 hx).1
          simp only [sent] at this
          omega
        rw [hl.items i x hx, hold]
        simp only [sent, hup, List.getElem?_append_left hi]
      ended := .inl (by simp only [sent, hup, List.length_append]; omega) }

/-- Polling a receiver that has taken a `Disconnect` keeps track. -/
theorem step_poll_silent {l l' : Link} (hl : Tracks c l) (hd : l.rx.disconnected = true)
    (h : step c l .poll = some l') : Tracks c l' := by
  simp only [step] at h
  rw [(silent_of_disconnected (c := c) hd).2] at h
  cases h
  obtain ⟨hhas, hlen⟩ := hl.rxFlag.1 hd
  exact { hl with
    rxFlag := iff_of_true hd ⟨hhas, by simp only [List.length_append]; omega⟩
    arrived := by
      rw [hl.arrived, List.drop_eq_nil_of_le hlen, List.drop_eq_nil_of_le (by simp only [List.length_append]; omega)]
    items := items_snoc hl.items (by rw [List.getElem?_eq_none hlen]; rfl)
    ended := .inr (.inr hhas) }

/-- Polling a receiver that has taken all messages keeps track. -/
theorem step_poll_empty {l l' : Link} (hl : Tracks c l) (hd : l.rx.disconnected = false)
    (hlen : (upToDisconnect l.passed).length ≤ l.items.length) (h : step c l .poll = some l') : Tracks c l' := by
  have ha : l.rx.stream.arrived = [] := by rw [hl.arrived, List.drop_eq_nil_of_le hlen]; rfl
  have hhas : ¬HasDisconnect l.passed := fun h => by
    rw [hl.rxFlag.2 ⟨h, hlen⟩] at hd
    cases hd
  simp only [step] at h
  rw [run_pollNext_empty hd ha] at h
  cases hclosed : l.rx.stream.closed with
  | false =>
    rw [hclosed] at h
    cases h
    exact hl
  | true =>
    rw [hclosed] at h
    cases h
    exact { hl with
      rxFlag := iff_of_false (by simp [hd]) fun h => hhas h.1
      arrived := by
        rw [ha, List.drop_eq_nil_of_le (by simp only [List.length_append]; omega)]
        rfl
      items := items_snoc hl.items (by rw [List.getElem?_eq_none hlen]; rfl)
      ended := .inr (.inl hclosed) }

/-- Polling a receiver that has a message to take keeps track. -/
theorem step_poll_message (hr : c.rlp.Lawful) (hz : c.SnapLaws) {l l' : Link} {m : Control} {rest : List Control}
    (hl : Tracks c l) (hd : l.rx.disconnected = false)
    (hdrop : (upToDisconnect l.passed).drop l.items.length = m :: rest) (h : step c l .poll = some l') :
    Tracks c l' := by
  have ha : l.rx.stream.arrived = controlFrame c l.rx.snappy m :: rest.map (controlFrame c l.rx.snappy) := by
    rw [hl.arrived, hdrop]
    rfl
  have hat : (upToDisconnect l.passed)[l.items.length]? = some m := by
    rw [← List.head?_drop, hdrop]
    rfl
  have hlt : l.items.length < (upToDisconnect l.passed).length := (List.getElem?_eq_some_iff.1 hat).1
  have hrest : (upToDisconnect l.passed).drop (l.items.length + 1) = rest := by
    rw [← List.tail_drop, hdrop]
    rfl
  -- the flag is set by the first `Disconnect`, which is the last message that counts
  have hflag : flagged l.rx.disconnected m = true ↔
      HasDisconnect l.passed ∧ (upToDisconnect l.passed).length ≤ l.items.length + 1 := by
    constructor
    · intro hf
      cases m with
      | disconnect reason =>
        obtain ⟨h₁, h₂⟩ := disconnect_at hat
        exact ⟨h₂, by omega⟩
      | ping => exact absurd (hd.symm.trans hf) (by decide)
      | pong => exact absurd (hd.symm.trans hf) (by decide)
    · rintro ⟨hhas, hle⟩
      obtain ⟨i, reason, hi⟩ := exists_disconnect_at hhas
      have := (disconnect_at hi).1
      obtain rfl : i = l.items.length := by omega
      rw [hat] at hi
      cases hi
      rfl
  have hl' : l' = { l with
      rx := { l.rx with
        stream := { l.rx.stream with arrived := rest.map (controlFrame c l.rx.snappy) }
        disconnected := flagged l.rx.disconnected m }
      items := l.items ++ [answer c (some m)] } := by
    simp only [step] at h
    rw [run_pollNext_control hr hz hd ha] at h
    cases m <;> exact (Option.some.inj h).symm
  subst hl'
  exact { hl with
    rxFlag := by simpa only [List.length_append, List.length_singleton] using hflag
    arrived := by simp only [List.length_append, List.length_singleton, hrest]
    items := items_snoc hl.items (by rw [hat])
    ended := .inl (by simp only [List.length_append, List.length_singleton]; omega) }

/-- **Every step keeps track** of the messages. -/
theorem step_tracks (hr : c.rlp.Lawful) (hz : c.SnapLaws) (l : Link) (e : Event) (l' : Link) (hl : Tracks c l)
    (h : step c l e = some l') : Tracks c l' := by
  cases e with
  | send m => exact step_send hr hz hl h
  | close =>
    cases h
    exact { hl with ended := .inr (.inl rfl) }
  | poll =>
    by_cases hd : l.rx.disconnected = true
    · exact step_poll_silent hl hd h
    · have hd : l.rx.disconnected = false := by simpa using hd
      cases hdrop : (upToDisconnect l.passed).drop l.items.length with
      | nil => exact step_poll_empty hl hd (List.drop_eq_nil_iff.1 hdrop) h
      | cons m rest => exact step_poll_message hr hz hl hd hdrop h

/-! ## Whole runs -/

/-- The messages of the events. -/
def sends : List Event → List Control
  | [] => []
  | .send m :: es => m :: sends es
  | .close :: es => sends es
  | .poll :: es => sends es

/-- What is passed in a run. -/
theorem passed_eq : ∀ {es : List Event} {l l' : Link}, Runs.run (step c) l es = some l' →
    l'.passed = l.passed ++ sends es
  | [], l, l', h => by
    cases h
    simp [sends]
  | e :: es, l, l', h => by
    obtain ⟨t, ht, h⟩ := Option.bind_eq_some_iff.1 h
    rw [passed_eq h]
    cases e with
    | send m =>
      have : t.passed = l.passed ++ [m] := by
        simp only [step] at ht
        split at ht
        · cases ht
        · split at ht <;> cases ht <;> rfl
      rw [this, sends, List.append_assoc, List.singleton_append]
    | close =>
      cases ht
      rfl
    | poll =>
      have : t.passed = l.passed := by
        simp only [step] at ht
        split at ht <;> cases ht <;> rfl
      rw [this, sends]

/-- Wherever a run leads, the messages are tracked. -/
theorem run_tracks (hr : c.rlp.Lawful) (hz : c.SnapLaws) {caps : List CapabilityInfo} {snappy : Bool}
    {es : List Event} {l : Link} (h : Runs.run (step c) (start caps snappy) es = some l) :
    Tracks c l ∧ l.passed = sends es :=
  ⟨Runs.invariant (step_tracks hr hz) es (start_tracks caps snappy) h, by simpa [start] using passed_eq h⟩

/-- **A `Disconnect` silences both ends**: the sender once it has passed one, the receiver once it has taken it. -/
theorem disconnect_silences (hr : c.rlp.Lawful) (hz : c.SnapLaws) {caps : List CapabilityInfo} {snappy : Bool}
    {es : List Event} {l : Link} (h : Runs.run (step c) (start caps snappy) es = some l)
    (hd : HasDisconnect (sends es)) :
    Silent c l.tx ∧ ((upToDisconnect (sends es)).length ≤ l.items.length → Silent c l.rx) := by
  obtain ⟨ht, hp⟩ := run_tracks hr hz h
  rw [← hp] at hd ⊢
  exact ⟨silent_of_disconnected (ht.txFlag.2 hd), fun hl => silent_of_disconnected (ht.rxFlag.2 ⟨hd, hl⟩)⟩

/-- The receiver has got the messages up to the first `Disconnect`, and nothing after them: the results that were ready
are these messages in order and then the end, a poll returns while one of them is missing, and an end that has sent or
received a `Disconnect` is silent. -/
structure Delivered (c : Crates) (ms : List Control) (l : Link) : Prop where
  ok : l.failed = false
  items : ∀ (i : Nat) (x : Except IoError (Option PeerMessage)), l.items[i]? = some x →
    x = .ok ((upToDisconnect ms)[i]?.map (·.message))
  ready : l.items.length < (upToDisconnect ms).length →
    ∀ rx, (pollNext c FrameQueue.frames).run l.rx ≠ .ok .pending rx
  txSilent : HasDisconnect ms → Silent c l.tx
  rxSilent : ∀ reason, .ok (some (.disconnect reason)) ∈ l.items → Silent c l.rx

/-- A poll returns while a message is missing. -/
theorem Tracks.ready (hr : c.rlp.Lawful) (hz : c.SnapLaws) {l : Link} (hl : Tracks c l)
    (hlt : l.items.length < (upToDisconnect l.passed).length) (rx : PeerStream FrameQueue) :
    (pollNext c FrameQueue.frames).run l.rx ≠ .ok .pending rx := by
  have hd : l.rx.disconnected = false := by
    rw [← Bool.not_eq_true, hl.rxFlag]
    rintro ⟨-, h⟩
    omega
  cases hdrop : (upToDisconnect l.passed).drop l.items.length with
  | nil => exact absurd (List.drop_eq_nil_iff.1 hdrop) (by omega)
  | cons m rest =>
    have ha : l.rx.stream.arrived = controlFrame c l.rx.snappy m :: rest.map (controlFrame c l.rx.snappy) := by
      rw [hl.arrived, hdrop]
      rfl
    rw [run_pollNext_control hr hz hd ha]
    cases m <;> simp [answer]

/-- Without a `Disconnect`, the answers are the messages. -/
theorem answer_eq {ms : List Control} (h : ¬HasDisconnect ms) (i : Nat) :
    answer c (upToDisconnect ms)[i]? = .ok ((upToDisconnect ms)[i]?.map (·.message)) := by
  cases hm : (upToDisconnect ms)[i]? with
  | none => rfl
  | some m =>
    cases m with
    | disconnect reason => exact absurd (disconnect_at hm).2 h
    | ping => rfl
    | pong => rfl

/-- A message can be passed while the connection is open. -/
theorem exists_step_send {l : Link} (hc : l.rx.stream.closed = false) (m : Control) :
    ∃ l', step c l (.send m) = some l' ∧ l'.rx.stream.closed = false ∧ l'.items = l.items := by
  simp only [step, hc, Bool.false_eq_true, if_false]
  split <;> exact ⟨_, rfl, hc, rfl⟩

/-- Messages can be passed one after the other. -/
theorem exists_run_sends : ∀ (ms : List Control) {l : Link}, l.rx.stream.closed = false →
    ∃ l', Runs.run (step c) l (ms.map .send) = some l' ∧ l'.items = l.items
  | [], l, _ => ⟨l, rfl, rfl⟩
  | m :: ms, l, hc => by
    obtain ⟨t, ht, htc, hti⟩ := exists_step_send (c := c) hc m
    obtain ⟨l', hl', hi⟩ := exists_run_sends ms htc
    exact ⟨l', by rw [List.map_cons, Runs.run_cons, ht, Option.bind_some, hl'], hi.trans hti⟩

/-- A poll takes a missing message. -/
theorem exists_step_poll (hr : c.rlp.Lawful) (hz : c.SnapLaws) {l : Link} (hl : Tracks c l)
    (hlt : l.items.length < (upToDisconnect l.passed).length) :
    ∃ l', step c l .poll = some l' ∧ l'.items.length = l.items.length + 1 ∧ l'.passed = l.passed := by
  have hready := hl.ready hr hz hlt
  have hok : ∀ l', step c l .poll = some l' → l'.failed = false := fun l' h => (step_tracks hr hz l .poll l' hl h).ok
  cases hp : (pollNext c FrameQueue.frames).run l.rx with
  | ok p rx =>
    cases p with
    | pending => exact absurd hp (hready rx)
    | ready p => exact ⟨{ l with rx := rx, items := l.items ++ [.ok p] }, by simp only [step, hp], by simp, rfl⟩
  | error e rx =>
    cases e with
    | err e => exact ⟨{ l with rx := rx, items := l.items ++ [.error e] }, by simp only [step, hp], by simp, rfl⟩
    | panic =>
      have := hok { l with rx := rx, failed := true } (by simp only [step, hp])
      cases this

/-- Polls take the missing messages. -/
theorem exists_run_polls (hr : c.rlp.Lawful) (hz : c.SnapLaws) : ∀ (n : Nat) {l : Link}, Tracks c l →
    l.items.length + n ≤ (upToDisconnect l.passed).length →
    ∃ l', Runs.run (step c) l (List.replicate n .poll) = some l' ∧ l'.items.length = l.items.length + n
  | 0, l, _, _ => ⟨l, rfl, rfl⟩
  | n + 1, l, hl, hn => by
    obtain ⟨t, ht, hti, htp⟩ := exists_step_poll hr hz hl (by omega)
    obtain ⟨l', hl', hi⟩ := exists_run_polls hr hz n (step_tracks hr hz l .poll t hl ht) (by rw [hti, htp]; omega)
    exact ⟨l', by rw [List.replicate_succ, Runs.run_cons, ht, Option.bind_some, hl'], by rw [hi, hti]; omega⟩

theorem sends_append : ∀ (es fs : List Event), sends (es ++ fs) = sends es ++ sends fs
  | [], _ => rfl
  | .send m :: es, fs => by simp [sends, sends_append es fs]
  | .close :: es, fs => by simp [sends, sends_append es fs]
  | .poll :: es, fs => by simp [sends, sends_append es fs]

theorem sends_map : ∀ ms : List Control, sends (ms.map .send) = ms
  | [] => rfl
  | m :: ms => by simp [sends, sends_map ms]

theorem sends_replicate_poll : ∀ n : Nat, sends (List.replicate n .poll) = []
  | 0 => rfl
  | n + 1 => by simp [List.replicate_succ, sends, sends_replicate_poll n]

/-- Some run passes the messages and takes them all up to the first `Disconnect`. -/
theorem exists_run_all (hr : c.rlp.Lawful) (hz : c.SnapLaws) (caps : List CapabilityInfo) (snappy : Bool)
    (ms : List Control) : ∃ es l, sends es = ms ∧ Runs.run (step c) (start caps snappy) es = some l ∧
      l.items.length = (upToDisconnect ms).length := by
  obtain ⟨t, ht, hti⟩ := exists_run_sends (c := c) ms (l := start caps snappy) rfl
  obtain ⟨htr, hp⟩ := run_tracks hr hz ht
  rw [sends_map] at hp
  have hlen : t.items.length = 0 := by rw [hti]; rfl
  obtain ⟨l, hl, hi⟩ := exists_run_polls hr hz (upToDisconnect ms).length htr (by rw [hp]; omega)
  refine ⟨ms.map .send ++ List.replicate (upToDisconnect ms).length .poll, l, ?_, ?_, by omega⟩
  · rw [sends_append, sends_map, sends_replicate_poll, List.append_nil]
  · rw [Runs.run_append, ht, Option.bind_some, hl]

/-- **The messages are delivered exactly when no `Disconnect` is among them**: its reason never arrives. The ends are
silent after a `Disconnect` all the same. -/
theorem control_delivered (hr : c.rlp.Lawful) (hz : c.SnapLaws) (caps : List CapabilityInfo) (snappy : Bool)
    (ms : List Control) :
    ((∀ es l, sends es = ms → Runs.run (step c) (start caps snappy) es = some l → Delivered c ms l) ↔
      ¬HasDisconnect ms) ∧
    ∀ es l, sends es = ms → Runs.run (step c) (start caps snappy) es = some l → HasDisconnect ms →
      Silent c l.tx ∧ ((upToDisconnect ms).length ≤ l.items.length → Silent c l.rx) := by
  refine ⟨?_, fun es l hes hl hhas => ?_⟩
  swap
  · subst hes
    exact disconnect_silences hr hz hl hhas
  constructor
  · intro hall hhas
    obtain ⟨es, l, hes, hl, hlen⟩ := exists_run_all hr hz caps snappy ms
    obtain ⟨ht, hp⟩ := run_tracks hr hz hl
    rw [hes] at hp
    -- the result at the place of the `Disconnect` is an error
    obtain ⟨i, reason, hi⟩ := exists_disconnect_at hhas
    have hlt : i < l.items.length := hlen ▸ (List.getElem?_eq_some_iff.1 hi).1
    have herr := ht.items i l.items[i] (List.getElem?_eq_getElem hlt)
    have hok := (hall es l hes hl).items i l.items[i] (List.getElem?_eq_getElem hlt)
    rw [hp, hi] at herr
    rw [herr] at hok
    cases hok
  · intro hno es l hes hl
    obtain ⟨ht, hp⟩ := run_tracks hr hz hl
    rw [hes] at hp
    have hitems : ∀ (i : Nat) (x : Except IoError (Option PeerMessage)), l.items[i]? = some x →
        x = .ok ((upToDisconnect ms)[i]?.map (·.message)) := fun i x hx => by
      rw [ht.items i x hx, hp, answer_eq hno]
    exact {
      ok := ht.ok
      items := hitems
      ready := fun hlt rx => ht.ready hr hz (by rwa [hp]) rx
      txSilent := fun h => absurd h hno
      rxSilent := fun reason hmem => by
        -- no result is a `Disconnect`, since none was passed
        obtain ⟨i, hi⟩ := List.mem_iff_getElem?.1 hmem
        have := hitems i _ hi
        rw [upToDisconnect_eq hno] at this
        simp only [Except.ok.injEq] at this
        obtain ⟨m, hm, hmsg⟩ := Option.map_eq_some_iff.1 this.symm
        cases m with
        | disconnect r => exact absurd ⟨r, List.mem_of_getElem? hm⟩ hno
        | ping => cases hmsg
        | pong => cases hmsg }

/-- A ping, a pong and the end of the connection. -/
def pingPong : List Event := [.send .ping, .poll, .send .pong, .close, .poll, .poll]

/-- The ping and the pong are delivered. -/
theorem ping_pong_delivered : ∃ l, Runs.run (step Software.crates) (start [] true) pingPong = some l ∧
    Delivered Software.crates [.ping, .pong] l := by
  have hnone : ¬HasDisconnect [.ping, .pong] := by simp [HasDisconnect]
  exact ⟨_, rfl, (control_delivered Rlp.standard_lawful Software.snapLaws [] true _).1.2 hnone pingPong _ rfl rfl⟩

/-- A `Disconnect` is not delivered. -/
theorem disconnect_lost : ¬∀ es l, sends es = [.disconnect .disconnectRequested] →
    Runs.run (step Software.crates) (start [] false) es = some l →
    Delivered Software.crates [.disconnect .disconnectRequested] l := fun h => by
  have hitem := (h [.send (.disconnect .disconnectRequested), .poll] _ rfl rfl).items 0 _ rfl
  cases hitem

end Link

end EthereumSentry
