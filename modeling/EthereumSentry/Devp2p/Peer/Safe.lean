import EthereumSentry.Devp2p.Peer.Control
import EthereumSentry.Devp2p.Peer.FrameLength
import EthereumSentry.Devp2p.Peer.Hello

/-!
# When a received frame makes the peer stream panic

Both readers of frames, `PeerStream::new` for the first and `poll_next` for the rest, slice off the first byte of the
body before anything else. That is out of range exactly when the body is empty (`onFrame_panics`, `readHello_panics`).
Nothing after it panics: the subtraction of `0x10` follows the branch for the reserved ids, and the index that the loop
over the capabilities leaves is checked; what `new` may still send, a `Disconnect`, is within a frame. Over an
established ECIES stream, which does not panic either, this decides what `poll_next` and `new` do on every frame
(`frames_total`).
-/

set_option autoImplicit false

namespace EthereumSentry

/-- The stream yields a frame. -/
def ECIESStream.Yields {c : Crates} (s : ECIESStream c) (val : Bytes) : Prop :=
  ∃ t, pollNext.run s = .ok (.ready (some val)) t

namespace PeerStream

open ECIES

variable {c : Crates} {S : Type}

/-- Any outcome but a panic. -/
abbrev Safe {ε σ α : Type} (x : Prog ε σ α) (s : σ) : Prop := Prog.wp x (fun _ _ => True) (fun _ => True) s

theorem readPayload_safe {val : Bytes} (h : val ≠ []) {s : PeerStream S} : Safe (readPayload c val) s := by
  have hl := List.length_pos_of_ne_nil h
  simp only [Safe, readPayload, Prog.wp_bind, Prog.wp_get, Prog.wp_sliceFrom, Prog.wp_ite, Prog.wp_ofExcept,
    Prog.wp_fail, Prog.wp_pure]
  refine ⟨hl, ?_⟩
  split
  · exact ⟨fun _ _ => by split <;> simp, fun _ _ => trivial⟩
  · trivial

theorem readReserved_safe (messageId : Nat) (data : Bytes) {s : PeerStream S} :
    Safe (readReserved c messageId data) s := by
  unfold readReserved
  split
  · simp only [Safe, Prog.wp_bind, Prog.wp_modify]
    cases readReason c data <;> trivial
  all_goals trivial

/-- The subtraction follows the branch for the reserved ids, and the index is checked. -/
theorem readSubprotocol_safe {messageId : Nat} (h : ¬messageId < 0x10) (data : Bytes) {s : PeerStream S} :
    Safe (readSubprotocol messageId data) s := by
  simp only [Safe, readSubprotocol, Prog.wp_bind, Prog.wp_get, Prog.wp_sub]
  refine ⟨by omega, ?_⟩
  rw [Prog.wp_ite]
  split
  · trivial
  · rename_i hi
    simp only [Prog.wp_bind, Prog.wp_unwrap, Prog.wp_pure, and_true]
    exact ⟨_, List.getElem?_eq_getElem (Nat.not_le.1 hi)⟩

theorem onFrame_safe {val : Bytes} (h : val ≠ []) {s : PeerStream S} : Safe (onFrame c val) s := by
  have hl := List.length_pos_of_ne_nil h
  simp only [Safe, onFrame, Prog.wp_bind, Prog.wp_slice]
  refine ⟨by omega, ?_⟩
  cases c.rlp.uint 8 ((val.take 1).drop 0) with
  | error e => trivial
  | ok messageId =>
    simp only [Prog.wp_bind]
    refine Prog.wp_mono (readPayload_safe h) (fun data s' _ => ?_) fun _ _ => trivial
    split
    · exact readReserved_safe messageId data
    · rename_i hm
      exact readSubprotocol_safe hm data

/-- **A received frame panics** exactly when its body is empty. -/
theorem onFrame_panics (val : Bytes) (s : PeerStream S) : Prog.Panics (onFrame c val) s ↔ val = [] := by
  constructor
  · intro h
    by_contra hne
    exact Prog.wp_not_panics (onFrame_safe hne) h
  · rintro rfl
    simp [onFrame]

theorem readHello_safe {hello : Bytes} (h : hello ≠ []) {s : S} :
    Safe (readHello c hello : Prog HelloError S HelloMessage) s := by
  have hl := List.length_pos_of_ne_nil h
  simp only [Safe, readHello, Prog.wp_bind, Prog.wp_slice, Prog.wp_ofExcept, Prog.wp_sliceFrom]
  refine ⟨by omega, fun messageId _ => ⟨hl, ?_⟩, fun _ _ => trivial⟩
  split
  · simp
  · trivial
  · trivial

/-- **The first frame panics** exactly when its body is empty. -/
theorem readHello_panics (hello : Bytes) (s : S) :
    Prog.Panics (readHello c hello : Prog HelloError S HelloMessage) s ↔ hello = [] := by
  constructor
  · intro h
    by_contra hne
    exact Prog.wp_not_panics (readHello_safe hne) h
  · rintro rfl
    simp [readHello]

/-- `poll_next` on a frame. -/
theorem pollNext_panics {F : Frames S} {s : PeerStream S} {val : Bytes} {t : S}
    (h : F.pollNext.run s.stream = .ok (.ready (some val)) t) :
    Prog.Panics (pollNext c F) s ↔ s.disconnected = false ∧ val = [] := by
  unfold pollNext
  rw [Prog.panics_bind_ok (EStateM.run_get s)]
  cases hd : s.disconnected with
  | true => simp
  | false =>
    simp only [Bool.false_eq_true, ↓reduceIte, true_and, inStream]
    rw [Prog.panics_bind_ok (Prog.run_zoom_ok h)]
    dsimp only
    rw [Prog.panics_bind, onFrame_panics]
    exact or_iff_left (by simp)

/-- `poll_next` when there is no frame, over a stream that does not panic. -/
theorem pollNext_not_panics {F : Frames S} {s : PeerStream S} (hF : ¬Prog.Panics F.pollNext s.stream)
    (h : ∀ val t, F.pollNext.run s.stream ≠ .ok (.ready (some val)) t) : ¬Prog.Panics (pollNext c F) s := by
  unfold pollNext
  rw [Prog.panics_bind_ok (EStateM.run_get s)]
  split
  · exact Prog.panics_pure _ _
  · refine Prog.not_panics_bind (by simpa only [inStream, Prog.panics_zoom] using hF) fun p s' hr => ?_
    obtain ⟨t, ht, rfl⟩ := Prog.run_zoom_eq_ok.1 hr
    rcases p with _ | _ | val
    · exact Prog.panics_pure _ _
    · exact Prog.panics_pure _ _
    · exact absurd ht (h val t)

/-! ## The whole of `new` -/

/-- What `new` sends with: a cipher, and two messages that are within a frame, its `Hello` and the `Disconnect` of a
useless peer. -/
structure Setup.CanSend (c : Crates) (n : Setup) (s : ECIESStream c) : Prop where
  writes : ∃ half, s.rx.codec.ecies.Writes half
  hello : (helloFrame c n.hello).length < 2 ^ 24
  farewell : ∀ body, frameBody c (⟨(), [], n.protocolVersion = .v5, false⟩ : PeerStream Unit)
    (.disconnect .uselessPeer) = some body → body.length < 2 ^ 24

/-- The `Hello` is sent: the cipher that is written with goes on, the one that is read with is as it was. -/
theorem run_sendHello {n : Setup} {s : ECIESStream c} (h : s.Established) (hn : n.CanSend c s) :
    ∃ t, (n.sendHello c (ECIESStream.frames c)).run s = .ok () t ∧ t.Established ∧ n.CanSend c t := by
  obtain ⟨half, hw⟩ := hn.writes
  have hwp : Prog.wp (ECIESStream.startSend (helloFrame c n.hello))
      (fun _ t => t.Established ∧ n.CanSend c t) (fun _ => False) s :=
    (ECIESStream.wp_startSend hw _).2
      ⟨hn.hello, ⟨h.aes, h.mac, h.state⟩, ⟨_, ECIES.writes_withEgress _ _⟩, hn.hello, hn.farewell⟩
  obtain ⟨_, t, hrun, ht⟩ := Prog.exists_run_of_wp hwp
  exact ⟨t, Prog.run_zoom_ok hrun, ht⟩

/-- A `Disconnect` that is within a frame is sent. -/
theorem farewell_safe (hr : c.rlp.Lawful) (hz : c.SnapLaws) {s : ECIESStream c} {half : Half}
    (hw : s.rx.codec.ecies.Writes half) (snappy : Bool)
    (hfit : ∀ body, frameBody c (⟨(), [], snappy, false⟩ : PeerStream Unit) (.disconnect .uselessPeer) = some body →
      body.length < 2 ^ 24) :
    Safe (startSend c (ECIESStream.frames c) (.disconnect .uselessPeer))
      (⟨s, [], snappy, false⟩ : PeerStream (ECIESStream c)) := by
  obtain ⟨-, hwire⟩ := controlPayload_wire hr hz snappy (.disconnect .uselessPeer)
  rw [Safe, wp_startSend, if_neg Bool.false_ne_true]
  refine ⟨by decide, _, hwire, (ECIESStream.wp_startSend hw _).2 ⟨hfit _ ?_, trivial⟩⟩
  simp only [frameBody, onWire, Option.bind_eq_bind, Option.bind_some]
  exact congrArg (Option.bind · _) hwire

/-- The end of `new` sends a `Disconnect` at most. -/
theorem finish_safe (hr : c.rlp.Lawful) (hz : c.SnapLaws) {n : Setup} {s : ECIESStream c} (hn : n.CanSend c s)
    (shared : List CapabilityInfo) : Safe (n.finish c (ECIESStream.frames c) shared) s := by
  obtain ⟨half, hw⟩ := hn.writes
  unfold Setup.finish
  dsimp only
  split
  · rename_i hnil
    obtain rfl := List.isEmpty_iff.1 hnil
    simp only [Safe, Prog.wp_bind, Prog.wp_zoom, Prog.wp_ignore, Prog.wp_fail]
    refine farewell_safe hr hz hw _ ?_
    have hfit := hn.farewell
    revert hfit
    cases n.protocolVersion <;> exact id
  · trivial

/-- **`new` on its first frame**, once the `Hello` is sent. -/
theorem new_panics (hr : c.rlp.Lawful) (hz : c.SnapLaws) {n : Setup} {s : ECIESStream c} (h : s.Established)
    (hn : n.CanSend c s) :
    ∃ t, (n.sendHello c (ECIESStream.frames c)).run s = .ok () t ∧
      (∀ hello, t.Yields hello → (Prog.Panics (n.new c (ECIESStream.frames c)) s ↔ hello = [])) ∧
      ((∀ hello, ¬t.Yields hello) → ¬Prog.Panics (n.new c (ECIESStream.frames c)) s) := by
  obtain ⟨t, hsend, ht, hnt⟩ := run_sendHello h hn
  have hnew : Prog.Panics (n.new c (ECIESStream.frames c)) s ↔
      Prog.Panics (n.receiveHello c (ECIESStream.frames c)) t := by
    rw [Setup.new_eq, Prog.panics_bind_ok hsend]
  have hpoll := ECIESStream.pollNext_safe ht
  refine ⟨t, hsend, fun hello ⟨u, hu⟩ => ?_, fun hno => ?_⟩
  · rw [Prog.wp_of_run hu] at hpoll
    obtain ⟨half, hw⟩ := hnt.writes
    have hnu : n.CanSend c u := ⟨⟨half, (congrArg Prod.fst hpoll.2).trans hw.1, (congrArg Prod.snd hpoll.2).trans hw.2⟩,
      hn.hello, hn.farewell⟩
    rw [hnew, Setup.receiveHello, Prog.panics_bind_ok (Prog.run_zoom_ok hu)]
    dsimp only
    rw [Prog.panics_bind, readHello_panics]
    refine or_iff_left ?_
    rintro ⟨m, u', hread, hpanics⟩
    obtain rfl := readHello_keeps hello _ _ _ hread
    exact Prog.wp_not_panics (finish_safe hr hz hnu _) hpanics
  · rw [hnew]
    refine Prog.not_panics_bind ?_ fun p u hr => ?_
    · rw [Prog.panics_zoom]
      exact Prog.wp_not_panics hpoll
    · obtain ⟨u', hu', rfl⟩ := Prog.run_zoom_eq_ok.1 hr
      rcases p with _ | _ | hello
      · exact Prog.panics_pure _ _
      · exact Prog.panics_fail _ _
      · exact absurd ⟨u', hu'⟩ (hno hello)

/-- **Frames are handled without a panic exactly when they are not empty**: over an established ECIES stream,
`poll_next` panics on no frame but the empty one, and so does the reader of the first frame, and the whole of `new` when
it can send. -/
theorem frames_total {s : PeerStream (ECIESStream c)} (h : s.stream.Established) :
    (∀ val, s.stream.Yields val →
      (¬Prog.Panics (pollNext c (ECIESStream.frames c)) s ↔ (s.disconnected = false → val ≠ []))) ∧
    ((∀ val, ¬s.stream.Yields val) → ¬Prog.Panics (pollNext c (ECIESStream.frames c)) s) ∧
    (∀ hello, ¬Prog.Panics (readHello c hello : Prog HelloError (ECIESStream c) HelloMessage) s.stream ↔
      hello ≠ []) ∧
    (c.rlp.Lawful → c.SnapLaws → ∀ n : Setup, n.CanSend c s.stream → ∃ t,
      (n.sendHello c (ECIESStream.frames c)).run s.stream = .ok () t ∧
      (∀ hello, t.Yields hello → (¬Prog.Panics (n.new c (ECIESStream.frames c)) s.stream ↔ hello ≠ [])) ∧
      ((∀ hello, ¬t.Yields hello) → ¬Prog.Panics (n.new c (ECIESStream.frames c)) s.stream)) := by
  refine ⟨fun val ⟨t, ht⟩ => ?_, fun hno => ?_, fun hello => not_congr (readHello_panics hello _), fun hr hz n hn => ?_⟩
  · rw [pollNext_panics (F := ECIESStream.frames c) ht, not_and]
  · exact pollNext_not_panics (Prog.wp_not_panics (ECIESStream.pollNext_safe h)) fun val t ht => hno val ⟨t, ht⟩
  · obtain ⟨t, hsend, hyields, hnone⟩ := new_panics hr hz h hn
    exact ⟨t, hsend, fun hello hy => not_congr (hyields hello hy), hnone⟩

section Example

open ECIES Software

/-- A session that has received the frame of a message yields it. -/
theorem yields_frame {e : ECIES c} {h : Half} (hr : e.Reads h) {m : Bytes} (hm : m.length < 2 ^ 24) :
    ∃ s : ECIESStream c, s.Established ∧ s.Yields m := by
  let s : ECIESStream c := ⟨⟨⟨e, .header⟩, h.frame c m⟩, [], true, false, [], FixedBytes.zero 64⟩
  refine ⟨s, ⟨by rw [hr.1]; rfl, by rw [hr.2]; rfl, .inl rfl⟩, ?_⟩
  have hc : ECIESCodec.Carries ⟨e, .header⟩ (h.frames c [m] ++ []) [m] (h.nexts c [m]) := by
    rw [List.append_nil]
    exact .header rfl hr (by simpa using hm)
  rw [Half.frames, Half.frames, List.append_nil] at hc
  cases ECIESCodec.decode_carries hc with
  | wait _ _ _ _ _ hw => exact absurd (hw rfl) (by simp)
  | message codec' buf' m' rest hp hrun _ _ =>
    cases hp
    have hdecode : ECIESStream.pollDecode.run s =
        .ok (some (some (.message m))) { s with rx := ⟨codec', buf'⟩ } := by
      unfold ECIESStream.pollDecode
      rw [Prog.run_bind_ok (EStateM.run_get s)]
      simp only [s, ↓reduceIte, Bool.false_eq_true]
      rw [Prog.run_bind_ok (ECIESStream.run_inStream hrun)]
      rfl
    have hframed : (ECIESStream.pollFramed []).run s =
        .ok (.ready (some (.message m))) { s with rx := ⟨codec', buf'⟩ } := by
      unfold ECIESStream.pollFramed
      rw [Prog.run_bind_ok hdecode]
      rfl
    refine ⟨{ s with rx := ⟨codec', buf'⟩ }, ?_⟩
    simp only [ECIESStream.pollNext, EStateM.run] at hframed ⊢
    rw [show s.reads = [] from rfl, hframed]

/-- A `Ping` to the example server is handled. -/
theorem ping_total : ∃ s : PeerStream (ECIESStream crates), s.stream.Yields [0x02, 0xc0] ∧
    ¬Prog.Panics (pollNext crates (ECIESStream.frames crates)) s := by
  obtain ⟨_, -, -, -, hr⟩ := (sessions_agree exampleParties).forth
  obtain ⟨s, he, hy⟩ := yields_frame hr (m := [0x02, 0xc0]) (by decide)
  exact ⟨⟨s, [], false, false⟩, hy, ((frames_total he).1 _ hy).2 fun _ => by decide⟩

/-- The frame of an empty message to the example server makes `poll_next` panic, and it makes `new` panic. -/
theorem empty_frame_panics :
    ¬((∀ s : PeerStream (ECIESStream crates), s.stream.Established →
        ¬Prog.Panics (pollNext crates (ECIESStream.frames crates)) s) ∧
      ∀ (hello : Bytes) (s : ECIESStream crates),
        ¬Prog.Panics (readHello crates hello : Prog HelloError (ECIESStream crates) HelloMessage) s) := by
  rintro ⟨h, -⟩
  obtain ⟨_, -, -, -, hr⟩ := (sessions_agree exampleParties).forth
  obtain ⟨s, he, t, ht⟩ := yields_frame hr (m := []) (by decide)
  exact h ⟨s, [], false, false⟩ he
    ((pollNext_panics (F := ECIESStream.frames crates) (s := ⟨s, [], false, false⟩) ht).2 ⟨rfl, rfl⟩)

end Example

end PeerStream

end EthereumSentry
