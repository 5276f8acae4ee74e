import EthereumSentry.Devp2p.Peer.Negotiation
import EthereumSentry.Devp2p.Peer.Opening

/-!
# Two peers meet

`PeerStream::connect` at one end of a transport and `PeerStream::incoming` at the other: the ECIES handshake, the
exchange of `Hello`, and the conversation, as one system (`Meeting.step`). The bytes arrive in parts of any size, the
futures are resumed and the streams are used in any order. In every run no call panics, both ends that have opened have
negotiated the same, each knows the id of the other, and hears what the other has sent; when nothing is left to be done
both ends have opened (`meeting_correct`). Without a common capability both fail with that reason
(`meeting_refused`).
-/

set_option autoImplicit false

namespace EthereumSentry

open ECIES

variable {c : Crates}

open PeerStream

/-! ## A handshake message in flight -/

namespace ECIESStream

open ECIESCodec

variable {s : ECIESStream c} {codec : ECIESCodec c} {out wire : Bytes}

/-- The codec is this one, and the bytes to come are these. -/
def At (codec : ECIESCodec c) (out : Bytes) (codec' : ECIESCodec c) (bytes : Bytes) : Prop :=
  codec' = codec ∧ bytes = out

/-- Without bytes there is no handshake message. -/
theorem decodes_nothing (hs : codec.state = .auth ∨ codec.state = .ack) :
    Decodes (At codec []) (fun _ _ _ => False) True := by
  rintro codec buf rest ⟨rfl, hb⟩
  obtain ⟨rfl, rfl⟩ := List.append_eq_nil_iff.1 hb
  have hwait : ∀ (read : Bytes → Prog ECIESError (ECIES c) Unit) (value : Prog IoError (Decoding c) IngressECIESValue),
      (decodeHandshake read value).run ⟨codec, []⟩ = .ok none ⟨codec, []⟩ := fun read value => by
    rw [decodeHandshake, Prog.run_bind_ok (EStateM.run_get _), if_pos (by simp)]
    rfl
  refine .inl ⟨codec, [], ?_, ⟨rfl, rfl⟩, fun _ => trivial⟩
  unfold decode
  rw [Prog.run_bind_ok (EStateM.run_get _)]
  rcases hs with hs | hs <;> simp only [hs] <;> exact hwait _ _

/-- Decoding the bytes of a handshake message and what follows it waits, or understands the message. -/
theorem decodes_handshake {read : Bytes → Prog ECIESError (ECIES c) Unit}
    {value : Prog IoError (Decoding c) IngressECIESValue} {msg tail : Bytes} {e : ECIES c} {v : IngressECIESValue}
    (hd : ∀ buf, decode.run ⟨codec, buf⟩ = (decodeHandshake read value).run ⟨codec, buf⟩)
    (hm : announced msg + 2 = msg.length) (hread : (read msg).run codec.ecies = .ok () e)
    (hvalue : ∀ buf, value.run ⟨⟨e, .header⟩, buf⟩ = .ok v ⟨⟨e, .header⟩, buf⟩) :
    Decodes (At codec (msg ++ tail)) (fun v' codec' bytes => v' = v ∧ At ⟨e, .header⟩ tail codec' bytes) False := by
  rintro codec buf rest ⟨rfl, hb⟩
  rw [hd]
  unfold decodeHandshake
  rw [Prog.run_bind_ok (EStateM.run_get _)]
  -- the announced size is that of the message, once two bytes have arrived
  have hsize : 2 ≤ buf.length → announced buf = announced msg := fun h2 => by
    have h := congrArg (List.take 2) hb
    rw [List.take_append_of_le_length h2, List.take_append_of_le_length (by omega)] at h
    rw [announced, announced, h]
  by_cases hl : buf.length < msg.length
  · refine .inl ⟨codec, buf, ?_, ⟨rfl, hb⟩, fun hrest => ?_⟩
    · by_cases h2 : buf.length < 2
      · rw [if_pos h2]
        rfl
      · rw [if_neg h2, if_pos (by rw [hsize (by omega), hm]; exact hl)]
        rfl
    · have hlen := congrArg List.length hb
      rw [hrest, List.append_nil, List.length_append] at hlen
      omega
  · obtain ⟨ht, hdrop⟩ := take_drop_of_append hb (Nat.not_lt.1 hl)
    refine .inr ⟨v, ⟨e, .header⟩, buf.drop msg.length, ?_, rfl, rfl, hdrop⟩
    rw [if_neg (by dsimp only; omega), hsize (by omega), if_neg (by dsimp only; omega), hm,
      Prog.run_bind_ok (run_splitTo (Nat.not_lt.1 hl))]
    dsimp only
    rw [ht, Prog.run_bind_ok (run_inDecode hread), setState, Prog.run_bind_ok (EStateM.run_modify _ _),
      Prog.run_bind_ok (hvalue _)]
    rfl

/-- More bytes are on their way. -/
theorem Inbound.more {dry : Prop} (h : s.Inbound (At codec out) dry wire) {msg : Bytes} (hne : msg ≠ []) :
    s.Inbound (At codec (out ++ msg)) False (wire ++ msg) where
  bytes := ⟨h.bytes.1, by rw [← h.bytes.2]; simp only [List.append_assoc]⟩
  reads := h.reads
  eof := h.eof
  drained _ hnone := hne (List.append_eq_nil_iff.1 (List.append_eq_nil_iff.1 hnone).2).2

end ECIESStream

namespace Party

variable {n : Setup} {e : Party c}

theorem received_ready (p : PeerStream (ECIESStream c)) (s : ECIESStream c) :
    e.received (.ok (.ready p) s) = ⟨.opened, { e.station with stream := p }⟩ := rfl

theorem received_err (error : HelloError) (s : ECIESStream c) :
    e.received (.error (.err error) s) = e.goOn (.failed (.hello error)) s := rfl

/-- Nothing was sent on the stream, or heard. -/
structure Fresh (e : Party c) : Prop where
  sent : e.station.sent = []
  received : e.station.received = []
  ended : e.station.ended = false
  failed : e.station.failed = false

theorem Fresh.goOn (h : e.Fresh) (stage : Stage c) (s : ECIESStream c) : (e.goOn stage s).Fresh :=
  ⟨h.sent, h.received, h.ended, h.failed⟩

/-- The end is in `new`. -/
def Greets (e : Party c) : Prop := e.stage = .sendHello ∨ e.stage = .receiveHello

/-- The end has not opened, nor failed. -/
def Opening (e : Party c) : Prop := (∃ stage, e.stage = .transport stage) ∨ e.Greets

theorem Greets.opening (h : e.Greets) : e.Opening := .inr h

theorem Opening.not_isOpen (h : e.Opening) : e.isOpen = false := by
  rcases h with ⟨stage, h⟩ | h | h <;> rw [isOpen, h]

theorem Opening.sound (h : e.Opening) : e.stage ≠ .panicked ∧ ∀ error, e.stage ≠ .failed error := by
  rcases h with ⟨stage, h⟩ | h | h <;> rw [h] <;> exact ⟨nofun, nofun⟩

/-- The `Hello` of an end, once it is sent. -/
def greeting (n : Setup) (e : Party c) : List Bytes :=
  match e.stage with
  | .transport _ | .sendHello => []
  | .receiveHello | .opened | .failed _ | .panicked => [helloFrame c n.hello]

/-- The stream after a frame. -/
def framed (s : ECIESStream c) (half : Half) (body : Bytes) : ECIESStream c := { s with
  rx := { s.rx with codec := { s.rx.codec with ecies := s.rx.codec.ecies.withEgress (half.next c body) } }
  written := s.written ++ half.frame c body }

/-- The `Hello` is sent. -/
theorem resume_sendHello {half : Half} (h : e.stage = .sendHello) (hw : e.ecies.rx.codec.ecies.Writes half)
    (hlen : (helloFrame c n.hello).length < 2 ^ 24) :
    e.resume n = some (e.goOn .receiveHello (framed e.ecies half (helloFrame c n.hello))) := by
  have hwp : Prog.wp (n.sendHello c (ECIESStream.frames c))
      (fun _ s => s = framed e.ecies half (helloFrame c n.hello)) (fun _ => False) e.ecies := by
    rw [Setup.sendHello, Prog.wp_zoom]
    exact (ECIESStream.wp_startSend hw _).2 ⟨hlen, rfl⟩
  obtain ⟨_, s, hrun, rfl⟩ := Prog.exists_run_of_wp hwp
  rw [resume, h]
  dsimp only
  rw [hrun]
  rfl

/-- `new` waits for a frame, or reads the next one in flight. -/
theorem resume_receiveHello {wire : Bytes} {pending : List Bytes} {tx : Half} (h : e.stage = .receiveHello)
    (he : e.ecies.Expects wire pending tx) :
    ∃ s, e.ecies.Reads s ∧
      (e.resume n = some (e.goOn .receiveHello s) ∧ s.Expects wire pending tx ∧ (wire = [] → pending = []) ∨
        ∃ frame rest, pending = frame :: rest ∧ s.Expects wire rest tx ∧
          e.resume n = some (e.received ((readHello c frame >>= fun hello =>
            n.finish c (ECIESStream.frames c) (shareCapabilities n.capabilities hello.capabilities)).run s))) := by
  obtain ⟨v, s, hrun, hv⟩ := Prog.exists_run_of_wp (ECIESStream.pollNext_expects he)
  have hpoll : (Prog.zoom (fun s => s) (fun s _ => s) .io (ECIESStream.frames c).pollNext :
      Prog HelloError (ECIESStream c) _).run e.ecies = .ok v s := Prog.run_zoom_ok hrun
  rw [resume, h]
  dsimp only
  unfold Setup.receiveHello
  rw [Prog.run_bind_ok hpoll]
  match v, hv with
  | .pending, ⟨hexp, hread, hwire⟩ => exact ⟨s, hread, .inl ⟨rfl, hexp, hwire⟩⟩
  | .ready (some frame), ⟨rest, hp, hexp, hread⟩ => exact ⟨s, hread, .inr ⟨frame, rest, hp, hexp, rfl⟩⟩

theorem greeting_sendHello (h : e.stage = .sendHello) : e.greeting n = [] := by
  rw [greeting, h]

theorem greeting_receiveHello (h : e.stage = .receiveHello) : e.greeting n = [helloFrame c n.hello] := by
  rw [greeting, h]

theorem resume_transport {stage : Connection.Stage c} (h : e.stage = .transport stage) :
    e.resume n = some (e.connecting (Connection.resume.run ⟨stage, e.ecies⟩)) := by
  rw [resume, h]

end Party

namespace Meeting

open Function (update)
open ECIESStream

variable {P : Parties c} {n : Side → Setup} {half : Side → Half} {d d' : Meeting c} {x : Side}

/-- The bytes that an end will get. -/
abbrev inbound (d : Meeting c) (x : Side) : Bytes := Conversation.inbound d.conversation x

theorem inbound_goOn (stage : Party.Stage c) (s : ECIESStream c) :
    inbound (update d x ((d x).goOn stage s)) x = inbound d x := by
  simp only [Conversation.inbound, conversation, Function.update_self, Function.update_of_ne (Side.other_ne x)]
  rfl

/-- The other end gets what was written too. -/
theorem inbound_other_goOn (stage : Party.Stage c) {s : ECIESStream c} {out : Bytes}
    (h : s.written = (d x).ecies.written ++ out) :
    inbound (update d x ((d x).goOn stage s)) x.other = inbound d x.other ++ out := by
  simp only [Conversation.inbound, conversation, Side.other_other, Function.update_self,
    Function.update_of_ne (Side.other_ne x), List.append_assoc]
  exact congrArg _ h

/-! ## The handshake -/

/-- The id of an end. -/
def idOf (P : Parties c) : Side → PeerId
  | .client => pk2id (c.fromSecretKey P.clientKey)
  | .server => pk2id (c.fromSecretKey P.serverKey)

/-- The codec of the client that waits for the ack message. -/
def awaitsAck (P : Parties c) : ECIESCodec c := ⟨{ freshClient P with initMsg := some (authMsg P) }, .ack⟩

/-- The codec of the server at its start. -/
def awaitsAuth (P : Parties c) : ECIESCodec c := .newServer P.serverKey P.serverNonce P.serverEphemeralKey

theorem decodes_ackMsg (h : c.SecpLaws) (hr : c.rlp.Lawful) (tail : Bytes) :
    Decodes (At (awaitsAck P) (ackMsg P ++ tail))
      (fun v codec bytes => v = .ack ∧ At ⟨sessionClient P, .header⟩ tail codec bytes) False :=
  decodes_handshake (fun buf => by
    unfold ECIESCodec.decode
    rw [Prog.run_bind_ok (EStateM.run_get _)]
    rfl) (Connection.announced_ackMsg hr P) (run_readAck_client h hr P) fun _ => rfl

theorem decodes_authMsg (h : c.SecpLaws) (hr : c.rlp.Lawful) (tail : Bytes) :
    Decodes (At (awaitsAuth P) (authMsg P ++ tail))
      (fun v codec bytes => v = .authReceive (idOf P .client) ∧ At ⟨authedServer P, .header⟩ tail codec bytes) False :=
  have hd : ∀ buf, ECIESCodec.decode.run ⟨awaitsAuth P, buf⟩ = (ECIESCodec.decodeHandshake readAuth do
      let s ← get
      let id ← Prog.unwrap s.codec.ecies.remoteId
      pure (.authReceive id)).run ⟨awaitsAuth P, buf⟩ := fun buf => by
    unfold ECIESCodec.decode
    rw [Prog.run_bind_ok (EStateM.run_get _)]
    rfl
  decodes_handshake hd (Connection.announced_authMsg hr P) (run_readAuth_server h hr P) fun _ => rfl

/-- The halves that the ends write with after the handshake. -/
structure Halves (P : Parties c) (half : Side → Half) : Prop where
  clientWrites : (sessionClient P).Writes (half .client)
  serverReads : (sessionServer P).Reads (half .client)
  serverWrites : (sessionServer P).Writes (half .server)
  clientReads : (sessionClient P).Reads (half .server)

theorem exists_halves (P : Parties c) : ∃ half, Halves P half := by
  obtain ⟨hc, -, -, hcw, hsr⟩ := (sessions_agree P).forth
  obtain ⟨hs, -, -, hsw, hcr⟩ := (sessions_agree P).back
  exact ⟨fun | .client => hc | .server => hs, hcw, hsr, hsw, hcr⟩

/-- How far the handshake is, and what is on its way. -/
inductive Handshaking (P : Parties c) (n : Side → Setup) (half : Side → Half) (d : Meeting c) : Prop
  /-- The client has not sent its auth message. -/
  | sendAuth (hc : (d .client).stage = .transport (.sendAuth P.authRng))
      (hs : (d .server).stage = .transport (.receiveAuth P.ackRng))
      (hcin : (d .client).ecies.Inbound (At ⟨freshClient P, .auth⟩ []) True (inbound d .client))
      (hsin : (d .server).ecies.Inbound (At (awaitsAuth P) []) True (inbound d .server))
  /-- The auth message is on its way. -/
  | receiveAuth (hc : (d .client).stage = .transport .receiveAck)
      (hs : (d .server).stage = .transport (.receiveAuth P.ackRng))
      (hcin : (d .client).ecies.Inbound (At (awaitsAck P) []) True (inbound d .client))
      (hsin : (d .server).ecies.Inbound (At (awaitsAuth P) (authMsg P ++ [])) False (inbound d .server))
  /-- The server has not sent its ack message. -/
  | sendAck (hc : (d .client).stage = .transport .receiveAck)
      (hs : (d .server).stage = .transport (.sendAck (idOf P .client) P.ackRng))
      (hcin : (d .client).ecies.Inbound (At (awaitsAck P) []) True (inbound d .client))
      (hsin : (d .server).ecies.Inbound (At ⟨authedServer P, .header⟩ []) False (inbound d .server))
  /-- The ack message is on its way, and maybe the `Hello` of the server after it. -/
  | receiveAck (hc : (d .client).stage = .transport .receiveAck) (hs : (d .server).Greets)
      (hcin : (d .client).ecies.Inbound (At (awaitsAck P)
        (ackMsg P ++ (half .server).frames c ((d .server).greeting (n .server)))) False (inbound d .client))
      (hsin : (d .server).ecies.Expects (inbound d .server) [] (half .client))
      (hw : (d .server).ecies.rx.codec.ecies.Writes ((half .server).nexts c ((d .server).greeting (n .server))))
      (hid : (d .server).ecies.remoteId = idOf P .client)

/-- The handshake goes on, and nobody has opened. -/
structure Before (P : Parties c) (n : Side → Setup) (half : Side → Half) (d : Meeting c) : Prop where
  phase : Handshaking P n half d
  fresh : ∀ x, (d x).Fresh
  remoteId : (d .client).ecies.remoteId = idOf P .server

theorem Before.opening (hd : Before P n half d) (x : Side) : (d x).Opening := by
  cases hd.phase with
  | sendAuth hc hs => exact .inl (match x with | .client => ⟨_, hc⟩ | .server => ⟨_, hs⟩)
  | receiveAuth hc hs => exact .inl (match x with | .client => ⟨_, hc⟩ | .server => ⟨_, hs⟩)
  | sendAck hc hs => exact .inl (match x with | .client => ⟨_, hc⟩ | .server => ⟨_, hs⟩)
  | receiveAck hc hs =>
    cases x with
    | client => exact .inl ⟨_, hc⟩
    | server => exact hs.opening

/-- The handshake is over, and nobody has read a `Hello`. -/
structure Greeting (P : Parties c) (n : Side → Setup) (d : Meeting c) : Prop where
  stage : ∀ x, (d x).Greets
  fresh : ∀ x, (d x).Fresh
  remoteId : ∀ x, (d x).ecies.remoteId = idOf P x.other
  flow : ∀ x, ∃ half, (d x).ecies.rx.codec.ecies.Writes half ∧
    (d x.other).ecies.Expects (inbound d x.other) ((d x).greeting (n x)) half

/-! ### Its steps -/

/-- An end that has written nothing: the other end gets what it got. -/
theorem inbound_other_aside (stage : Party.Stage c) {s : ECIESStream c} (h : (d x).ecies.Aside s) :
    inbound (update d x ((d x).goOn stage s)) x.other = inbound d x.other := by
  rw [inbound_other_goOn stage (h.written.trans (List.append_nil _).symm), List.append_nil]

theorem frame_ne_nil (c : Crates) (h : Half) (m : Bytes) : h.frame c m ≠ [] := by
  intro hnone
  have hlen := congrArg List.length hnone
  simp only [List.length_append, Half.frame, Half.length_headerBytes, headerLen, List.length_nil] at hlen
  omega

/-- What an end gets, after it has read. -/
theorem inbound_mine {J : ECIESCodec c → Bytes → Prop} {dry : Prop} {stage : Party.Stage c} {s : ECIESStream c}
    (h : s.Inbound J dry (inbound d x)) : (update d x ((d x).goOn stage s) x).ecies.Inbound J dry
      (inbound (update d x ((d x).goOn stage s)) x) := by
  rw [inbound_goOn, Function.update_self]
  exact h

/-- What the other end gets, after an end has read. -/
theorem inbound_theirs {J : ECIESCodec c → Bytes → Prop} {dry : Prop} {stage : Party.Stage c} {s : ECIESStream c}
    (ha : (d x).ecies.Aside s) (h : (d x.other).ecies.Inbound J dry (inbound d x.other)) :
    (update d x ((d x).goOn stage s) x.other).ecies.Inbound J dry
      (inbound (update d x ((d x).goOn stage s)) x.other) := by
  rw [inbound_other_aside stage ha, Function.update_of_ne (Side.other_ne x)]
  exact h

/-- What the other end gets, after an end has sent a frame. -/
theorem inbound_theirs_framed {J : ECIESCodec c → Bytes → Prop} {dry : Prop} {stage : Party.Stage c} {h : Half}
    {m : Bytes} (ho : (d x.other).ecies.Inbound J dry (inbound d x.other ++ h.frame c m)) :
    (update d x ((d x).goOn stage (Party.framed (d x).ecies h m)) x.other).ecies.Inbound J dry
      (inbound (update d x ((d x).goOn stage (Party.framed (d x).ecies h m))) x.other) := by
  rw [inbound_other_goOn stage rfl, Function.update_of_ne (Side.other_ne x)]
  exact ho

theorem fresh_goOn (h : ∀ y, (d y).Fresh) (stage : Party.Stage c) (s : ECIESStream c) (y : Side) :
    (update d x ((d x).goOn stage s) y).Fresh := by
  rcases Side.eq_or_eq_other y x with rfl | rfl
  · rw [Function.update_self]
    exact (h y).goOn stage s
  · rw [Function.update_of_ne (Side.other_ne x)]
    exact h x.other

theorem authMsg_ne_nil (hr : c.rlp.Lawful) (P : Parties c) : authMsg P ≠ [] :=
  Connection.ne_nil_of_announced (Connection.announced_authMsg hr P)

theorem ackMsg_ne_nil (hr : c.rlp.Lawful) (P : Parties c) : ackMsg P ≠ [] :=
  Connection.ne_nil_of_announced (Connection.announced_ackMsg hr P)

/-- The client sends its auth message. -/
theorem resume_sendAuth (half : Side → Half) (hr : c.rlp.Lawful) (hfresh : ∀ x, (d x).Fresh)
    (hid : (d .client).ecies.remoteId = idOf P .server) (hc : (d .client).stage = .transport (.sendAuth P.authRng))
    (hs : (d .server).stage = .transport (.receiveAuth P.ackRng))
    (hcin : (d .client).ecies.Inbound (At ⟨freshClient P, .auth⟩ []) True (inbound d .client))
    (hsin : (d .server).ecies.Inbound (At (awaitsAuth P) []) True (inbound d .server)) :
    ∃ e, (d .client).resume (n .client) = some e ∧ e.stage = .transport .receiveAck ∧
      Before P n half (update d .client e) := by
  have hencode : (ECIESCodec.encode (.auth P.authRng)).run (d .client).ecies.rx.codec =
      .ok (authMsg P) (awaitsAck P) := by
    rw [hcin.bytes.1]
    exact run_encode_auth hr P
  let sent : ECIESStream c := Connection.wrote (d .client).ecies (awaitsAck P) (authMsg P)
  refine ⟨(d .client).goOn (.transport .receiveAck) sent, ?_, rfl, .receiveAuth rfl hs ?_ ?_, fresh_goOn hfresh _ _,
    hid⟩
  · rw [Party.resume_transport hc, Connection.run_resume_sendAuth hencode]
    rfl
  · rw [inbound_goOn]
    exact ⟨⟨rfl, hcin.bytes.2⟩, hcin.reads, hcin.eof, fun _ _ => trivial⟩
  · have hin : inbound (update d .client ((d .client).goOn (.transport .receiveAck) sent)) .server =
        inbound d .server ++ authMsg P := inbound_other_goOn _ rfl
    rw [hin, List.append_nil]
    exact hsin.more (authMsg_ne_nil hr P)

/-- Polling a stream whose next bytes are known. -/
theorem exists_pollFramed {s : ECIESStream c} {J : ECIESCodec c → Bytes → Prop}
    {V : IngressECIESValue → ECIESCodec c → Bytes → Prop} {dry : Prop} {wire : Bytes} (hJ : Decodes J V dry)
    (h : s.Inbound J dry wire) :
    ∃ v s', (pollFramed s.reads).run s = .ok v s' ∧ s.Aside s' ∧ Came J V dry wire v s' := by
  obtain ⟨v, s', hrun, hs'⟩ := Prog.exists_run_of_wp (pollFramed_inbound hJ rfl h)
  exact ⟨v, s', hrun, hs'⟩

/-- A client to which nothing was sent waits for the ack message. -/
theorem resume_awaitsAck (hc : (d .client).stage = .transport .receiveAck)
    (hcin : (d .client).ecies.Inbound (At (awaitsAck P) []) True (inbound d .client)) :
    ∃ s, (d .client).resume (n .client) = some ((d .client).goOn (.transport .receiveAck) s) ∧
      (d .client).ecies.Aside s ∧ s.Inbound (At (awaitsAck P) []) True (inbound d .client) := by
  obtain ⟨v, s, hrun, ha, hv⟩ := exists_pollFramed (decodes_nothing (.inr rfl)) hcin
  match v, hv with
  | .pending, ⟨hin, _⟩ =>
    refine ⟨s, ?_, ha, hin⟩
    rw [Party.resume_transport hc, Connection.run_resume_receiveAck hrun]
    rfl
  | .ready (some v), hv => exact hv.bytes.elim

/-- The server waits for the auth message, or goes on with it. -/
theorem resume_receiveAuth (h : c.SecpLaws) (hr : c.rlp.Lawful)
    (hs : (d .server).stage = .transport (.receiveAuth P.ackRng))
    (hsin : (d .server).ecies.Inbound (At (awaitsAuth P) (authMsg P ++ [])) False (inbound d .server)) :
    ∃ s, (d .server).ecies.Aside s ∧
      ((d .server).resume (n .server) = some ((d .server).goOn (.transport (.receiveAuth P.ackRng)) s) ∧
          s.Inbound (At (awaitsAuth P) (authMsg P ++ [])) False (inbound d .server) ∧ inbound d .server ≠ [] ∨
        (d .server).resume (n .server) =
            some ((d .server).goOn (.transport (.sendAck (idOf P .client) P.ackRng)) s) ∧
          s.Inbound (At ⟨authedServer P, .header⟩ []) False (inbound d .server)) := by
  obtain ⟨v, s, hrun, ha, hv⟩ := exists_pollFramed (decodes_authMsg h hr []) hsin
  refine ⟨s, ha, ?_⟩
  rw [Party.resume_transport hs, Connection.run_resume_receiveAuth hrun]
  match v, hv with
  | .pending, hv => exact .inl ⟨rfl, hv⟩
  | .ready (some v), hv =>
    obtain rfl := hv.bytes.1
    exact .inr ⟨rfl, hv.imp And.right id⟩

/-- The server sends its ack message, and its session is set up. -/
theorem resume_sendAck (h : c.SecpLaws) (hr : c.rlp.Lawful) (hhalf : Halves P half) (hfresh : ∀ x, (d x).Fresh)
    (hid : (d .client).ecies.remoteId = idOf P .server) (hc : (d .client).stage = .transport .receiveAck)
    (hs : (d .server).stage = .transport (.sendAck (idOf P .client) P.ackRng))
    (hcin : (d .client).ecies.Inbound (At (awaitsAck P) []) True (inbound d .client))
    (hsin : (d .server).ecies.Inbound (At ⟨authedServer P, .header⟩ []) False (inbound d .server)) :
    ∃ e, (d .server).resume (n .server) = some e ∧ e.stage = .sendHello ∧
      Before P n half (update d .server e) := by
  have hencode : (ECIESCodec.encode (.ack P.ackRng)).run (d .server).ecies.rx.codec =
      .ok (ackMsg P) ⟨sessionServer P, .header⟩ := by
    rw [hsin.bytes.1]
    exact run_encode_ack h hr P
  let sent : ECIESStream c := { Connection.wrote (d .server).ecies ⟨sessionServer P, .header⟩ (ackMsg P) with
    remoteId := idOf P .client }
  have hempty : ∀ m ∈ ([] : List Bytes), m.length < 2 ^ 24 := by simp
  refine ⟨(d .server).goOn .sendHello sent, ?_, rfl, .receiveAck hc (.inl rfl) ?_ ?_ hhalf.serverWrites rfl,
    fresh_goOn hfresh _ _, hid⟩
  · rw [Party.resume_transport hs, Connection.run_resume_sendAck hencode]
    rfl
  · have hin : inbound (update d .server ((d .server).goOn .sendHello sent)) .client =
        inbound d .client ++ ackMsg P := inbound_other_goOn _ rfl
    have hmore := hcin.more (ackMsg_ne_nil hr P)
    rw [← hin] at hmore
    exact hmore.imp (fun hb => ⟨hb.1, hb.2.trans (List.append_nil _).symm⟩) id
  · rw [inbound_goOn]
    refine ⟨?_, hsin.reads, hsin.eof, fun _ _ => rfl⟩
    have hb := hsin.bytes.2
    exact hb.symm ▸ ECIESCodec.Carries.header rfl hhalf.serverReads hempty

/-- The client waits for the ack message, or its session is set up. -/
theorem resume_receiveAck (h : c.SecpLaws) (hr : c.rlp.Lawful) (hc : (d .client).stage = .transport .receiveAck)
    {tail : Bytes} (hcin : (d .client).ecies.Inbound (At (awaitsAck P) (ackMsg P ++ tail)) False (inbound d .client)) :
    ∃ s, (d .client).ecies.Aside s ∧
      ((d .client).resume (n .client) = some ((d .client).goOn (.transport .receiveAck) s) ∧
          s.Inbound (At (awaitsAck P) (ackMsg P ++ tail)) False (inbound d .client) ∧ inbound d .client ≠ [] ∨
        (d .client).resume (n .client) = some ((d .client).goOn .sendHello s) ∧
          s.Inbound (At ⟨sessionClient P, .header⟩ tail) False (inbound d .client)) := by
  obtain ⟨v, s, hrun, ha, hv⟩ := exists_pollFramed (decodes_ackMsg h hr tail) hcin
  refine ⟨s, ha, ?_⟩
  rw [Party.resume_transport hc, Connection.run_resume_receiveAck hrun]
  match v, hv with
  | .pending, hv => exact .inl ⟨rfl, hv⟩
  | .ready (some v), hv =>
    obtain rfl := hv.bytes.1
    exact .inr ⟨rfl, hv.imp And.right id⟩

/-- A server to which nothing was sent waits for the auth message. -/
theorem resume_awaitsAuth (hs : (d .server).stage = .transport (.receiveAuth P.ackRng))
    (hsin : (d .server).ecies.Inbound (At (awaitsAuth P) []) True (inbound d .server)) :
    ∃ s, (d .server).resume (n .server) = some ((d .server).goOn (.transport (.receiveAuth P.ackRng)) s) ∧
      (d .server).ecies.Aside s ∧ s.Inbound (At (awaitsAuth P) []) True (inbound d .server) := by
  obtain ⟨v, s, hrun, ha, hv⟩ := exists_pollFramed (decodes_nothing (.inl rfl)) hsin
  match v, hv with
  | .pending, ⟨hin, _⟩ =>
    refine ⟨s, ?_, ha, hin⟩
    rw [Party.resume_transport hs, Connection.run_resume_receiveAuth hrun]
    rfl
  | .ready (some v), hv => exact hv.bytes.elim

/-- A reader whose session is set up gets the frames that were written so far. -/
theorem expects_of_at {codec : ECIESCodec c} {s : ECIESStream c} {h : Half} {wire : Bytes} {frames : List Bytes}
    {dry : Prop} (hs : codec.state = .header) (hread : codec.ecies.Reads h) (hp : ∀ m ∈ frames, m.length < 2 ^ 24)
    (hin : s.Inbound (At codec (h.frames c frames)) dry wire) (hdry : dry → frames = []) :
    s.Expects wire frames (h.nexts c frames) :=
  hin.imp (fun hb => by
    rw [hb.1, hb.2]
    exact .header hs hread hp) hdry

theorem greeting_short (hshort : ∀ x, (helloFrame c (n x).hello).length < 2 ^ 24) :
    ∀ m ∈ (d x).greeting (n x), m.length < 2 ^ 24 := by
  intro m hm
  unfold Party.greeting at hm
  split at hm
  · cases hm
  · cases hm
  all_goals
    rw [List.mem_singleton.1 hm]
    exact hshort x

/-- **A step of the handshake.** -/
theorem resume_before (h : c.SecpLaws) (hr : c.rlp.Lawful) (hhalf : Halves P half)
    (hshort : ∀ x, (helloFrame c (n x).hello).length < 2 ^ 24) (hd : Before P n half d) {e : Party c}
    (he : (d x).resume (n x) = some e) : Before P n half (update d x e) ∨ Greeting P n (update d x e) := by
  obtain ⟨hphase, hfresh, hid⟩ := hd
  cases hphase with
  | sendAuth hc hs hcin hsin =>
    left
    cases x with
    | client =>
      obtain ⟨_, hres, -, hb⟩ := resume_sendAuth (n := n) half hr hfresh hid hc hs hcin hsin
      rw [hres, Option.some.injEq] at he
      exact he ▸ hb
    | server =>
      obtain ⟨s, hres, ha, hin⟩ := resume_awaitsAuth (n := n) hs hsin
      obtain rfl := Option.some.inj (hres.symm.trans he)
      exact ⟨.sendAuth hc rfl (inbound_theirs (x := .server) ha hcin) (inbound_mine hin), fresh_goOn hfresh _ _, hid⟩
  | receiveAuth hc hs hcin hsin =>
    left
    cases x with
    | client =>
      obtain ⟨s, hres, ha, hin⟩ := resume_awaitsAck (n := n) hc hcin
      obtain rfl := Option.some.inj (hres.symm.trans he)
      exact ⟨.receiveAuth rfl hs (inbound_mine hin) (inbound_theirs (x := .client) ha hsin), fresh_goOn hfresh _ _,
        ha.remoteId.trans hid⟩
    | server =>
      obtain ⟨s, ha, hor⟩ := resume_receiveAuth (n := n) h hr hs hsin
      rcases hor with ⟨hres, hin, -⟩ | ⟨hres, hin⟩
      · obtain rfl := Option.some.inj (hres.symm.trans he)
        exact ⟨.receiveAuth hc rfl (inbound_theirs (x := .server) ha hcin) (inbound_mine hin),
          fresh_goOn hfresh _ _, hid⟩
      · obtain rfl := Option.some.inj (hres.symm.trans he)
        exact ⟨.sendAck hc rfl (inbound_theirs (x := .server) ha hcin) (inbound_mine hin), fresh_goOn hfresh _ _, hid⟩
  | sendAck hc hs hcin hsin =>
    left
    cases x with
    | client =>
      obtain ⟨s, hres, ha, hin⟩ := resume_awaitsAck (n := n) hc hcin
      obtain rfl := Option.some.inj (hres.symm.trans he)
      exact ⟨.sendAck rfl hs (inbound_mine hin) (inbound_theirs (x := .client) ha hsin), fresh_goOn hfresh _ _,
        ha.remoteId.trans hid⟩
    | server =>
      obtain ⟨_, hres, -, hb⟩ := resume_sendAck (n := n) h hr hhalf hfresh hid hc hs hcin hsin
      rw [hres, Option.some.injEq] at he
      exact he ▸ hb
  | receiveAck hc hs hcin hsin hw hsid =>
    cases x with
    | client =>
      obtain ⟨s, ha, hor⟩ := resume_receiveAck (n := n) h hr hc hcin
      rcases hor with ⟨hres, hin, -⟩ | ⟨hres, hin⟩
      · obtain rfl := Option.some.inj (hres.symm.trans he)
        exact .inl ⟨.receiveAck rfl hs (inbound_mine hin) (inbound_theirs (x := .client) ha hsin) hw hsid,
          fresh_goOn hfresh _ _, ha.remoteId.trans hid⟩
      · obtain rfl := Option.some.inj (hres.symm.trans he)
        refine .inr ⟨fun | .client => .inl rfl | .server => hs, fresh_goOn hfresh _ _,
          fun | .client => ha.remoteId.trans hid | .server => hsid,
          fun | .client => ⟨half .client, ?_, inbound_theirs (x := .client) ha hsin⟩ | .server => ⟨_, hw, ?_⟩⟩
        · have hcodec : (update d .client ((d .client).goOn .sendHello s) .client).ecies.rx.codec = _ := hin.bytes.1
          rw [hcodec]
          exact hhalf.clientWrites
        · exact expects_of_at rfl hhalf.clientReads (greeting_short hshort) (inbound_mine hin) False.elim
    | server =>
      left
      rcases hs with hs | hs
      · rw [Party.greeting_sendHello hs] at hw hcin
        have hres := Party.resume_sendHello (n := n .server) hs hw (hshort .server)
        obtain rfl := Option.some.inj (hres.symm.trans he)
        refine ⟨.receiveAck hc (.inr rfl) ?_ ?_ ?_ hsid, fresh_goOn hfresh _ _, hid⟩
        · have hmore := hcin.more (frame_ne_nil c (half .server) (helloFrame c (n .server).hello))
          refine inbound_theirs_framed (x := .server) (hmore.imp (fun hb => ⟨hb.1, hb.2.trans ?_⟩) id)
          rw [List.append_assoc]
          exact congrArg _ (List.append_nil _).symm
        · rw [inbound_goOn]
          exact hsin.writes _ _
        · exact writes_withEgress _ ((half .server).next c (helloFrame c (n .server).hello))
      · obtain ⟨s, hk, hor⟩ := Party.resume_receiveHello (n := n .server) hs hsin
        rcases hor with ⟨hres, hexp, -⟩ | ⟨frame, rest, hp, -⟩
        · obtain rfl := Option.some.inj (hres.symm.trans he)
          rw [Party.greeting_receiveHello hs] at hw hcin
          exact ⟨.receiveAck hc (.inr rfl) (inbound_theirs (x := .server) hk.toAside hcin) (inbound_mine hexp)
            ⟨hk.aes.trans hw.1, hk.mac.trans hw.2⟩ (hk.remoteId.trans hsid), fresh_goOn hfresh _ _, hid⟩
        · cases hp

/-! ### Bytes that move -/

/-- Bytes have moved on their way, and nothing else has happened. -/
structure Moves (d d' : Meeting c) : Prop where
  moved : Conversation.Moved d.conversation d'.conversation
  stage : ∀ x, (d' x).stage = (d x).stage

theorem moves_of_step {e : Conversation.Event} (h : step n d (.talk e) = some d')
    (hmove : (∃ x, e = .flush x) ∨ ∃ x k, e = .deliver x k) : Moves d d' := by
  simp only [step] at h
  split at h
  · obtain ⟨k, hk, rfl⟩ := Option.map_eq_some_iff.1 h
    refine ⟨?_, fun _ => rfl⟩
    rcases hmove with ⟨x, rfl⟩ | ⟨x, m, rfl⟩
    · exact Conversation.moved_flush hk
    · exact Conversation.moved_deliver hk
  · cases h

/-- While nobody has opened, bytes can only move. -/
theorem moves_of_closed (hd : ∀ x, (d x).isOpen = false) {e : Conversation.Event}
    (h : step n d (.talk e) = some d') : Moves d d' := by
  have hno : ∀ x, ¬(d x).isOpen = true := fun x => by rw [hd x]; exact Bool.false_ne_true
  cases e with
  | flush x => exact moves_of_step h (.inl ⟨x, rfl⟩)
  | deliver x k => exact moves_of_step h (.inr ⟨x, k, rfl⟩)
  | send x m =>
    rw [step, if_neg (show ¬d.Allows (.send x m) from hno x)] at h
    cases h
  | poll x =>
    rw [step, if_neg (show ¬d.Allows (.poll x) from hno x)] at h
    cases h

namespace Moves

theorem inbound (h : Moves d d') {J : ECIESCodec c → Bytes → Prop} {dry : Prop}
    (hin : (d x).ecies.Inbound J dry (inbound d x)) : (d' x).ecies.Inbound J dry (Meeting.inbound d' x) :=
  h.moved.brings x J dry hin

theorem codec (h : Moves d d') (x : Side) : (d' x).ecies.rx.codec = (d x).ecies.rx.codec := h.moved.codec x

theorem remoteId (h : Moves d d') (x : Side) : (d' x).ecies.remoteId = (d x).ecies.remoteId := by
  obtain ⟨s, wire, hs, hx⟩ := h.moved.rest x
  have hstream : (d' x).ecies = s := congrArg (·.stream.stream) hx
  rw [hstream]
  exact hs

theorem fresh (h : Moves d d') (hf : (d x).Fresh) : (d' x).Fresh := by
  obtain ⟨s, wire, -, hx⟩ := h.moved.rest x
  have hx : (d' x).station = _ := hx
  refine ⟨?_, ?_, ?_, ?_⟩ <;> rw [hx]
  · exact hf.sent
  · exact hf.received
  · exact hf.ended
  · exact hf.failed

theorem greeting (h : Moves d d') (s : Setup) : (d' x).greeting s = (d x).greeting s := by
  unfold Party.greeting
  rw [h.stage]

theorem isOpen (h : Moves d d') (x : Side) : (d' x).isOpen = (d x).isOpen := by
  unfold Party.isOpen
  rw [h.stage]

theorem greets (h : Moves d d') (hx : (d x).Greets) : (d' x).Greets := by
  unfold Party.Greets
  rw [h.stage]
  exact hx

theorem before (h : Moves d d') (hd : Before P n half d) : Before P n half d' := by
  obtain ⟨hphase, hfresh, hid⟩ := hd
  refine ⟨?_, fun x => h.fresh (hfresh x), (h.remoteId _).trans hid⟩
  cases hphase with
  | sendAuth hc hs hcin hsin =>
    exact .sendAuth ((h.stage _).trans hc) ((h.stage _).trans hs) (h.inbound hcin) (h.inbound hsin)
  | receiveAuth hc hs hcin hsin =>
    exact .receiveAuth ((h.stage _).trans hc) ((h.stage _).trans hs) (h.inbound hcin) (h.inbound hsin)
  | sendAck hc hs hcin hsin =>
    exact .sendAck ((h.stage _).trans hc) ((h.stage _).trans hs) (h.inbound hcin) (h.inbound hsin)
  | receiveAck hc hs hcin hsin hw hsid =>
    rw [← h.greeting] at hcin hw
    rw [← h.codec] at hw
    exact .receiveAck ((h.stage _).trans hc) (h.greets hs) (h.inbound hcin) (h.inbound hsin) hw
      ((h.remoteId _).trans hsid)

end Moves

theorem Moves.greeting_of (h : Moves d d') (hd : Greeting P n d) : Greeting P n d' where
  stage x := h.greets (hd.stage x)
  fresh x := h.fresh (hd.fresh x)
  remoteId x := (h.remoteId x).trans (hd.remoteId x)
  flow x := by
    obtain ⟨half, hw, hexp⟩ := hd.flow x
    rw [← h.codec] at hw
    rw [← h.greeting] at hexp
    exact ⟨half, hw, h.inbound hexp⟩

/-! ## The exchange of `Hello` -/

/-- What holds of an end that has gone on, and of the other. -/
theorem forall_update {Q : Side → Party c → Prop} {e : Party c} (h : Q x e) (ho : Q x.other (d x.other)) (y : Side) :
    Q y (update d x e y) := by
  rcases Side.eq_or_eq_other y x with rfl | rfl
  · rwa [Function.update_self]
  · rwa [Function.update_of_ne (Side.other_ne x)]

/-- A `Hello` is sent. -/
theorem Greeting.sendHello (hshort : ∀ x, (helloFrame c (n x).hello).length < 2 ^ 24) (hd : Greeting P n d)
    (hs : (d x).stage = .sendHello) {e : Party c} (he : (d x).resume (n x) = some e) :
    Greeting P n (update d x e) ∧ e.stage = .receiveHello := by
  obtain ⟨half, hw, hexp⟩ := hd.flow x
  obtain ⟨half', hw', hexp'⟩ := hd.flow x.other
  rw [Side.other_other] at hexp'
  rw [Party.greeting_sendHello hs] at hexp
  obtain rfl := Option.some.inj ((Party.resume_sendHello hs hw (hshort x)).symm.trans he)
  refine ⟨⟨forall_update (Q := fun _ e => e.Greets) (.inr rfl) (hd.stage x.other), fresh_goOn hd.fresh _ _,
    forall_update (Q := fun y e => e.ecies.remoteId = idOf P y.other) (hd.remoteId x) (hd.remoteId x.other),
    fun y => ?_⟩, rfl⟩
  rcases Side.eq_or_eq_other y x with rfl | rfl
  · rw [Function.update_self, Party.greeting_receiveHello rfl]
    exact ⟨half.next c (helloFrame c (n y).hello), writes_withEgress _ _,
      inbound_theirs_framed (hexp.append (hshort y))⟩
  · rw [Function.update_of_ne (Side.other_ne x), Side.other_other]
    refine ⟨half', hw', ?_⟩
    rw [inbound_goOn, Function.update_self]
    exact hexp'.writes _ _

/-- An end waits for a `Hello` that was not sent. -/
theorem Greeting.receiveHello (hd : Greeting P n d) (hs : (d x).stage = .receiveHello)
    (ho : (d x.other).stage = .sendHello) {e : Party c} (he : (d x).resume (n x) = some e) :
    Greeting P n (update d x e) := by
  obtain ⟨half, hw, hexp⟩ := hd.flow x
  obtain ⟨half', hw', hexp'⟩ := hd.flow x.other
  rw [Side.other_other, Party.greeting_sendHello ho] at hexp'
  obtain ⟨s, hk, hor⟩ := Party.resume_receiveHello (n := n x) hs hexp'
  rcases hor with ⟨hres, hexp', -⟩ | ⟨frame, rest, hp, -⟩
  · obtain rfl := Option.some.inj (hres.symm.trans he)
    refine ⟨forall_update (Q := fun _ e => e.Greets) (.inr rfl) (hd.stage x.other), fresh_goOn hd.fresh _ _,
      forall_update (Q := fun y e => e.ecies.remoteId = idOf P y.other) (hk.remoteId.trans (hd.remoteId x))
        (hd.remoteId x.other), fun y => ?_⟩
    rcases Side.eq_or_eq_other y x with rfl | rfl
    · refine ⟨half, ?_, ?_⟩
      · rw [Function.update_self]
        exact ⟨hk.aes.trans hw.1, hk.mac.trans hw.2⟩
      · rw [Party.greeting_receiveHello hs] at hexp
        rw [Function.update_self, Party.greeting_receiveHello rfl]
        exact inbound_theirs hk.toAside hexp
    · rw [Function.update_of_ne (Side.other_ne x), Side.other_other, Party.greeting_sendHello ho]
      exact ⟨half', hw', inbound_mine hexp'⟩
  · cases hp

/-! ## The conversation -/

/-- The `Hello` of an end that the other has not read. -/
def unread (n : Side → Setup) (d : Meeting c) (x : Side) : List Bytes :=
  if (d x.other).isOpen then [] else [helloFrame c (n x).hello]

/-- Both ends have sent their `Hello`, and an end that has read one talks. -/
structure Session (P : Parties c) (n : Side → Setup) (p : Conversation.Agreed) (d : Meeting c) : Prop where
  stage : ∀ x, (d x).stage = .receiveHello ∨ (d x).stage = .opened
  fresh : ∀ x, (d x).isOpen = false → (d x).Fresh
  synced : Conversation.Synced p (unread n d) (fun x => (d x).isOpen = true) (fun x => idOf P x.other) d.conversation

variable {p : Conversation.Agreed}

theorem isOpen_of_stage {e : Party c} (h : e.stage = .opened) : e.isOpen = true := by
  rw [Party.isOpen, h]

/-- Both ends have sent their `Hello`. -/
theorem Greeting.session (hd : Greeting P n d) (hs : ∀ x, (d x).stage = .receiveHello) : Session P n p d where
  stage x := .inl (hs x)
  fresh x _ := hd.fresh x
  synced := by
    have hclosed : ∀ x, (d x).isOpen = false := fun x => (hd.stage x).opening.not_isOpen
    refine ⟨fun x hx => ?_, hd.remoteId, fun x => ?_⟩
    · rw [hclosed] at hx
      cases hx
    · obtain ⟨half, hw, hexp⟩ := hd.flow x
      simp only [Conversation.inbound, Side.other_other, Party.greeting_receiveHello (hs x)] at hexp
      refine ⟨[], [], [], half, (hd.fresh x).sent, (hd.fresh x.other).received, hw, .nil, ?_⟩
      rw [unread, hclosed, List.append_nil]
      exact hexp

theorem unread_moves (h : Moves d d') : unread n d' = unread n d := by
  funext x
  rw [unread, unread, h.isOpen]

theorem unread_update (e : Party c) : unread n (update d x e) x = unread n d x := by
  rw [unread, unread, Function.update_of_ne (Side.other_ne x)]

theorem unread_update_other (e : Party c) :
    unread n (update d x e) x.other = if e.isOpen then [] else [helloFrame c (n x.other).hello] := by
  rw [unread, Side.other_other, Function.update_self]

theorem Moves.session (h : Moves d d') (hd : Session P n p d) : Session P n p d' where
  stage x := by
    rw [h.stage]
    exact hd.stage x
  fresh x hx := h.fresh (hd.fresh x ((h.isOpen x).symm.trans hx))
  synced := by
    simp only [unread_moves h, h.isOpen]
    exact h.moved.synced hd.synced

/-- A stream is used, or bytes move. -/
theorem Session.talk (hr : c.rlp.Lawful) (hz : c.SnapLaws) (hn : p.sharedCapabilities.Pairwise (·.name < ·.name))
    {e : Conversation.Event} (he : e.Carried c p) (hd : Session P n p d) (h : step n d (.talk e) = some d') :
    Session P n p d' := by
  -- an end that is not open is left as it is
  have huse : ∀ x, (∃ m, e = .send x m) ∨ e = .poll x → Session P n p d' := fun x hx => by
    simp only [step] at h
    split at h
    · rename_i hallow
      obtain ⟨k, hk, rfl⟩ := Option.map_eq_some_iff.1 h
      have hopen : (d x).isOpen = true := by
        rcases hx with ⟨m, rfl⟩ | rfl
        · exact hallow
        · exact hallow
      refine ⟨hd.stage, fun y hy => ?_, ?_⟩
      · rcases Side.eq_or_eq_other y x with rfl | rfl
        · exact absurd (hopen.symm.trans hy) (by decide)
        · obtain ⟨h₁, h₂, h₃, h₄⟩ := hd.fresh x.other hy
          have hsame := Conversation.step_other hk hx
          refine ⟨?_, ?_, ?_, ?_⟩ <;> dsimp only <;> rw [hsame]
          · exact h₁
          · exact h₂
          · exact h₃
          · exact h₄
      · rcases hx with ⟨m, rfl⟩ | rfl
        · exact Conversation.step_send hr hz hn he hd.synced hopen hk
        · refine Conversation.step_poll hr hz hn hd.synced hopen ?_ hk
          rw [unread, Side.other_other]
          exact if_pos hopen
    · cases h
  cases e with
  | send x m => exact huse x (.inl ⟨m, rfl⟩)
  | poll x => exact huse x (.inr rfl)
  | flush x => exact (moves_of_step h (.inl ⟨x, rfl⟩)).session hd
  | deliver x k => exact (moves_of_step h (.inr ⟨x, k, rfl⟩)).session hd

/-- What both ends have negotiated. -/
structure Agrees (n : Side → Setup) (p : Conversation.Agreed) : Prop where
  caps : ∀ x, shareCapabilities (n x).capabilities (n x.other).hello.capabilities = p.sharedCapabilities
  snappy : ∀ x, decide ((n x).protocolVersion = .v5) = p.snappy

/-- A `Hello` is read, or waited for. -/
theorem Session.receiveHello (hr : c.rlp.Lawful) (hl : c.rlp.ListLaws) (hfit : ∀ x, (n x).hello.Fits c)
    (ha : Agrees n p) (hne : p.sharedCapabilities ≠ []) (hd : Session P n p d) (hs : (d x).stage = .receiveHello)
    {e : Party c} (he : (d x).resume (n x) = some e) :
    Session P n p (update d x e) ∧ (inbound d x = [] → e.stage = .opened) := by
  have hx : (d x).isOpen = false := Party.Opening.not_isOpen (.inr (.inr hs))
  have hfresh := hd.fresh x hx
  have hforth := hd.synced.inStep x
  obtain ⟨done, rest, bodies, half, hsent, hdone, hw, hbodies, hexp⟩ := hd.synced.inStep x.other
  rw [Side.other_other] at hdone hexp
  rw [unread, Side.other_other, hx] at hexp
  obtain ⟨s, hk, hor⟩ := Party.resume_receiveHello (n := n x) hs hexp
  have hkept : ∀ {first : List Bytes} {tx : Station c}, tx.stream.stream = s → tx.sent = (d x).station.sent →
      Conversation.InStep p first (d x).station (d x.other).station →
      Conversation.InStep p first tx (d x.other).station := fun htx hsame h => by
    refine h.congr hsame ?_ ?_ rfl fun _ _ => ?_ <;> rw [htx]
    · exact hk.aes
    · exact hk.mac
    · rw [hk.written]
      exact id
  rcases hor with ⟨hres, hexp', hwire⟩ | ⟨frame, rest', hp, hexp', hres⟩
  · obtain rfl := Option.some.inj (hres.symm.trans he)
    refine ⟨⟨forall_update (Q := fun _ e => e.stage = _ ∨ e.stage = _) (.inl rfl) (hd.stage x.other),
      forall_update (Q := fun _ e => e.isOpen = false → e.Fresh) (fun _ => hfresh.goOn _ _) (hd.fresh x.other), ?_⟩,
      fun hin => absurd (hwire hin) (by simp)⟩
    have hclosed : ¬(update d x ((d x).goOn .receiveHello s) x).isOpen = true := by
      rw [Function.update_self]
      exact nofun
    refine Conversation.synced_of x (absurd · hclosed) ?_ ?_ ?_ ?_
      ⟨done, rest, bodies, half, ?_, ?_, ?_, hbodies, ?_⟩ <;>
      simp only [conversation, Function.update_self, Function.update_of_ne (Side.other_ne x), unread_update,
        unread_update_other]
    · exact hd.synced.sound x.other
    · exact hk.remoteId.trans (hd.synced.remoteId x)
    · exact hd.synced.remoteId x.other
    · exact hkept rfl rfl hforth
    · exact hsent
    · exact hdone
    · exact hw
    · exact hexp'
  · simp only [Bool.false_eq_true, ↓reduceIte, List.singleton_append, List.cons.injEq] at hp
    obtain ⟨rfl, rfl⟩ := hp
    rw [Prog.run_bind_ok (run_readHello_helloFrame hr hl (hfit x.other) s),
      run_finish (by rw [ha.caps x]; exact hne), Party.received_ready] at hres
    obtain rfl := Option.some.inj (hres.symm.trans he)
    refine ⟨⟨forall_update (Q := fun _ e => e.stage = _ ∨ e.stage = _) (.inr rfl) (hd.stage x.other),
      forall_update (Q := fun _ e => e.isOpen = false → e.Fresh) nofun (hd.fresh x.other), ?_⟩, fun _ => rfl⟩
    refine Conversation.synced_of x (fun _ => ⟨?_, ?_, ?_, ?_, ?_⟩) ?_ ?_ ?_ ?_
      ⟨done, rest, bodies, half, ?_, ?_, ?_, hbodies, ?_⟩ <;>
      simp only [conversation, Function.update_self, Function.update_of_ne (Side.other_ne x), unread_update,
        unread_update_other]
    · exact ha.caps x
    · exact ha.snappy x
    · exact hfresh.failed
    · simp [Setup.stream, hfresh.sent, hfresh.received]
    · simp [hfresh.ended]
    · exact hd.synced.sound x.other
    · exact hk.remoteId.trans (hd.synced.remoteId x)
    · exact hd.synced.remoteId x.other
    · exact hkept rfl rfl hforth
    · exact hsent
    · exact hdone
    · exact hw
    · exact hexp'

/-! ## Nothing in common -/

/-- Both ends have sent their `Hello`, and an end that has read one has failed. -/
structure Refusal (n : Side → Setup) (d : Meeting c) : Prop where
  stage : ∀ x, (d x).stage = .receiveHello ∨ (d x).stage = .failed (.hello .noSharedCapabilities)
  reads : ∀ x, (d x).stage = .receiveHello → ∃ half rest,
    (d x).ecies.Expects (inbound d x) (helloFrame c (n x.other).hello :: rest) half ∧
      ((d x.other).stage = .receiveHello → (d x.other).ecies.rx.codec.ecies.Writes half)
  writes : ∀ x, (d x).stage = .receiveHello → ∃ half, (d x).ecies.rx.codec.ecies.Writes half

theorem Greeting.refusal (hd : Greeting P n d) (hs : ∀ x, (d x).stage = .receiveHello) : Refusal n d where
  stage x := .inl (hs x)
  reads x _ := by
    obtain ⟨half, hw, hexp⟩ := hd.flow x.other
    rw [Side.other_other, Party.greeting_receiveHello (hs x.other)] at hexp
    exact ⟨half, [], hexp, fun _ => hw⟩
  writes x _ := by
    obtain ⟨half, hw, -⟩ := hd.flow x
    exact ⟨half, hw⟩

theorem Moves.refusal (h : Moves d d') (hd : Refusal n d) : Refusal n d' where
  stage x := by
    rw [h.stage]
    exact hd.stage x
  reads x hx := by
    obtain ⟨half, rest, hexp, hw⟩ := hd.reads x ((h.stage x).symm.trans hx)
    refine ⟨half, rest, h.inbound hexp, fun ho => ?_⟩
    rw [h.codec]
    exact hw ((h.stage x.other).symm.trans ho)
  writes x hx := by
    rw [h.codec]
    exact hd.writes x ((h.stage x).symm.trans hx)

/-- The farewell of a node. -/
abbrev Farewell (c : Crates) (n : Setup) : Prop :=
  PeerStream.Carried c (⟨(), [], decide (n.protocolVersion = .v5), false⟩ : Conversation.Agreed)
    (.disconnect .uselessPeer)

/-- Without a shared capability, `new` says so, and fails. -/
theorem run_finish_none (hr : c.rlp.Lawful) (hz : c.SnapLaws) {n : Setup} (hn : Farewell c n) {s : ECIESStream c}
    {half : Half} (hw : s.rx.codec.ecies.Writes half) :
    ∃ body, body.length < 2 ^ 24 ∧ (n.finish c (ECIESStream.frames c) []).run s =
      .error (.err .noSharedCapabilities) (Party.framed s half body) := by
  obtain ⟨body, -, hlen, hrun⟩ := run_startSend_body (p := ⟨(), [], decide (n.protocolVersion = .v5), false⟩)
    (s := ⟨s, [], decide (n.protocolVersion = .v5), false⟩) hr hz .nil hn rfl rfl rfl hw
  have hbye : ∀ snappy, snappy = decide (n.protocolVersion = .v5) →
      (Prog.zoom (fun s => (⟨s, [], snappy, false⟩ : PeerStream (ECIESStream c))) (fun s _ => s.stream) .io
        (Prog.ignore (startSend c (ECIESStream.frames c) (.disconnect .uselessPeer))) :
        Prog HelloError (ECIESStream c) Unit).run s = .ok () (Party.framed s half body) := by
    rintro _ rfl
    exact Prog.run_zoom_eq_ok.2 ⟨_, Prog.run_ignore_ok hrun, rfl⟩
  refine ⟨body, hlen, ?_⟩
  unfold Setup.finish
  simp only [List.isEmpty_nil, ↓reduceIte]
  rw [Prog.run_bind_ok (hbye _ (by cases n.protocolVersion <;> rfl))]
  rfl

theorem writes_unique {e : ECIES c} {h h' : Half} (hw : e.Writes h) (hw' : e.Writes h') : h = h' := by
  cases h
  cases h'
  have haes := Option.some.inj (hw.1.symm.trans hw'.1)
  have hmac := Option.some.inj (hw.2.symm.trans hw'.2)
  dsimp only at haes hmac
  rw [haes, hmac]

/-- A `Hello` is read, or waited for. -/
theorem Refusal.receiveHello (hr : c.rlp.Lawful) (hl : c.rlp.ListLaws) (hz : c.SnapLaws)
    (hfit : ∀ x, (n x).hello.Fits c) (hbye : ∀ x, Farewell c (n x))
    (hnone : ∀ x, shareCapabilities (n x).capabilities (n x.other).hello.capabilities = []) (hd : Refusal n d)
    (hs : (d x).stage = .receiveHello) {e : Party c} (he : (d x).resume (n x) = some e) :
    Refusal n (update d x e) ∧ (inbound d x = [] → e.stage = .failed (.hello .noSharedCapabilities)) := by
  obtain ⟨half, rest, hexp, hother⟩ := hd.reads x hs
  obtain ⟨own, hw⟩ := hd.writes x hs
  obtain ⟨s, hk, hor⟩ := Party.resume_receiveHello (n := n x) hs hexp
  have hws : s.rx.codec.ecies.Writes own := ⟨hk.aes.trans hw.1, hk.mac.trans hw.2⟩
  rcases hor with ⟨hres, hexp', hwire⟩ | ⟨frame, rest', hp, hexp', hres⟩
  · obtain rfl := Option.some.inj (hres.symm.trans he)
    refine ⟨⟨forall_update (Q := fun _ e => e.stage = _ ∨ e.stage = _) (.inl rfl) (hd.stage x.other), fun y hy => ?_,
      fun y hy => ?_⟩, fun hin => absurd (hwire hin) (by simp)⟩
    · rcases Side.eq_or_eq_other y x with rfl | rfl
      · refine ⟨half, rest, inbound_mine hexp', fun ho => ?_⟩
        rw [Function.update_of_ne (Side.other_ne y)] at ho ⊢
        exact hother ho
      · rw [Function.update_of_ne (Side.other_ne x)] at hy
        obtain ⟨half', rest'', hexp'', hw'⟩ := hd.reads x.other hy
        refine ⟨half', rest'', inbound_theirs hk.toAside hexp'', fun _ => ?_⟩
        rw [Side.other_other] at hw' ⊢
        rw [Function.update_self]
        exact ⟨hk.aes.trans (hw' hs).1, hk.mac.trans (hw' hs).2⟩
    · rcases Side.eq_or_eq_other y x with rfl | rfl
      · rw [Function.update_self]
        exact ⟨own, hws⟩
      · rw [Function.update_of_ne (Side.other_ne x)] at hy ⊢
        exact hd.writes x.other hy
  · obtain ⟨rfl, rfl⟩ := List.cons.inj hp
    obtain ⟨body, hlen, hrun⟩ := run_finish_none hr hz (hbye x) hws
    rw [Prog.run_bind_ok (run_readHello_helloFrame hr hl (hfit x.other) s), hnone x, hrun,
      Party.received_err] at hres
    obtain rfl := Option.some.inj (hres.symm.trans he)
    have hfailed : ∀ {y}, (update d x ((d x).goOn (.failed (.hello .noSharedCapabilities))
        (Party.framed s own body)) y).stage = .receiveHello → y = x.other ∧ (d x.other).stage = .receiveHello := by
      intro y hy
      rcases Side.eq_or_eq_other y x with rfl | rfl
      · rw [Function.update_self] at hy
        cases hy
      · rw [Function.update_of_ne (Side.other_ne x)] at hy
        exact ⟨rfl, hy⟩
    refine ⟨⟨forall_update (Q := fun _ e => e.stage = _ ∨ e.stage = _) (.inr rfl) (hd.stage x.other), fun y hy => ?_,
      fun y hy => ?_⟩, fun _ => rfl⟩
    · obtain ⟨rfl, ho⟩ := hfailed hy
      obtain ⟨half', rest'', hexp'', hw'⟩ := hd.reads x.other ho
      rw [Side.other_other] at hexp'' hw' ⊢
      obtain rfl := writes_unique hw (hw' hs)
      refine ⟨own.next c body, rest'' ++ [body], ?_, fun hx => ?_⟩
      · have hmore := inbound_other_goOn (s := Party.framed s own body) (.failed (.hello .noSharedCapabilities))
          (congrArg (· ++ own.frame c body) hk.written)
        rw [hmore, Function.update_of_ne (Side.other_ne x)]
        exact hexp''.append hlen
      · rw [Function.update_self] at hx
        cases hx
    · obtain ⟨rfl, ho⟩ := hfailed hy
      rw [Function.update_of_ne (Side.other_ne x)]
      exact hd.writes x.other ho

/-! ## Whole runs -/

/-- The messages that are passed are carried. -/
def Event.Carried (c : Crates) (p : Conversation.Agreed) : Event → Prop
  | .talk e => e.Carried c p
  | .resume _ => True

theorem Event.Opens.carried {e : Event} {p : Conversation.Agreed} (h : e.Opens) : e.Carried c p := by
  rcases e with _ | _ | _ | _ | _
  · exact trivial
  · exact h.elim
  all_goals exact trivial

theorem Still.inbound (h : Still n d) (x : Side) : inbound d x = [] := by
  rw [Meeting.inbound, Conversation.inbound, List.append_eq_nil_iff]
  exact ⟨(h x).1, (h x.other).2.1⟩

/-- The handshake does not stand still. -/
theorem Before.not_still (h : c.SecpLaws) (hr : c.rlp.Lawful) (hhalf : Halves P half) (hd : Before P n half d) :
    ¬Still n d := by
  intro hstill
  obtain ⟨hphase, hfresh, hid⟩ := hd
  cases hphase with
  | sendAuth hc hs hcin hsin =>
    obtain ⟨e, hres, hstage, -⟩ := resume_sendAuth (n := n) half hr hfresh hid hc hs hcin hsin
    have hsame := (hstill .client).2.2 e hres
    rw [hstage, hc] at hsame
    cases hsame
  | receiveAuth hc hs hcin hsin =>
    obtain ⟨s, ha, ⟨-, -, hne⟩ | ⟨hres, -⟩⟩ := resume_receiveAuth (n := n) h hr hs hsin
    · exact hne (hstill.inbound .server)
    · have hsame := (hstill .server).2.2 _ hres
      rw [hs] at hsame
      cases hsame
  | sendAck hc hs hcin hsin =>
    obtain ⟨e, hres, hstage, -⟩ := resume_sendAck (n := n) h hr hhalf hfresh hid hc hs hcin hsin
    have hsame := (hstill .server).2.2 e hres
    rw [hstage, hs] at hsame
    cases hsame
  | receiveAck hc hs hcin hsin hw hsid =>
    obtain ⟨s, ha, ⟨-, -, hne⟩ | ⟨hres, -⟩⟩ := resume_receiveAck (n := n) h hr hc hcin
    · exact hne (hstill.inbound .client)
    · have hsame := (hstill .client).2.2 _ hres
      rw [hc] at hsame
      cases hsame

/-- When nothing is left to be done, both ends have sent their `Hello`. -/
theorem Greeting.still (hshort : ∀ x, (helloFrame c (n x).hello).length < 2 ^ 24) (hd : Greeting P n d)
    (hstill : Still n d) (x : Side) : (d x).stage = .receiveHello := by
  refine (hd.stage x).resolve_left fun hs => ?_
  obtain ⟨half, hw, -⟩ := hd.flow x
  have hsame := (hstill x).2.2 _ (Party.resume_sendHello hs hw (hshort x))
  rw [hs] at hsame
  cases hsame

theorem start_before {k : Connection c} (hk : Connection.connect P.clientKey (idOf P .server) P.clientNonce
    P.clientEphemeralKey P.authRng = .ok k) (h : c.SecpLaws) :
    Before P n half
      (start k (.incoming P.serverKey P.serverNonce P.serverEphemeralKey P.ackRng)) := by
  have hnew : Connection.connect P.clientKey (idOf P .server) P.clientNonce P.clientEphemeralKey P.authRng =
      .ok ⟨.sendAuth P.authRng, .framed ⟨freshClient P, .auth⟩ (idOf P .server)⟩ := by
    unfold Connection.connect ECIESCodec.newClient idOf
    rw [newStaticClient_eq h]
    rfl
  obtain rfl := Except.ok.inj (hk.symm.trans hnew)
  refine ⟨.sendAuth rfl rfl ?_ ?_, fun | .client => ⟨rfl, rfl, rfl, rfl⟩ | .server => ⟨rfl, rfl, rfl, rfl⟩, rfl⟩
  · exact ⟨⟨rfl, rfl⟩, nofun, rfl, fun _ _ => trivial⟩
  · exact ⟨⟨rfl, rfl⟩, nofun, rfl, fun _ _ => trivial⟩

/-- What the exchange of `Hello` leads to, and what keeps it so. -/
structure Outcome (P : Parties c) (n : Side → Setup) (ok : Event → Prop) (S : Meeting c → Prop) : Prop where
  start : ∀ d, Greeting P n d → (∀ x, (d x).stage = .receiveHello) → S d
  resume : ∀ d x e, S d → (d x).resume (n x) = some e → S (update d x e)
  talk : ∀ d e d', S d → ok (.talk e) → step n d (.talk e) = some d' → S d'

variable {ok : Event → Prop} {S : Meeting c → Prop}

/-- The handshake, the exchange of `Hello`, and what it leads to. -/
def Phases (P : Parties c) (n : Side → Setup) (half : Side → Half) (S : Meeting c → Prop) (d : Meeting c) : Prop :=
  Before P n half d ∨ Greeting P n d ∨ S d

/-- **Every step keeps to the phases.** -/
theorem step_phases (h : c.SecpLaws) (hr : c.rlp.Lawful) (hhalf : Halves P half)
    (hshort : ∀ x, (helloFrame c (n x).hello).length < 2 ^ 24) (hS : Outcome P n ok S)
    (d : Meeting c) (e : Event) (d' : Meeting c) (hd : Phases P n half S d) (he : ok e)
    (hstep : step n d e = some d') : Phases P n half S d' := by
  cases e with
  | resume x =>
    obtain ⟨e, hres, rfl⟩ := Option.map_eq_some_iff.1 hstep
    rcases hd with hd | hd | hd
    · exact (resume_before h hr hhalf hshort hd hres).imp_right .inl
    · rcases hd.stage x with hs | hs
      · exact .inr (.inl (hd.sendHello hshort hs hres).1)
      · rcases hd.stage x.other with ho | ho
        · exact .inr (.inl (hd.receiveHello hs ho hres))
        · have hall : ∀ y, (d y).stage = .receiveHello := fun y => by
            rcases Side.eq_or_eq_other y x with rfl | rfl
            · exact hs
            · exact ho
          exact .inr (.inr (hS.resume d x e (hS.start d hd hall) hres))
    · exact .inr (.inr (hS.resume d x e hd hres))
  | talk e =>
    rcases hd with hd | hd | hd
    · exact .inl ((moves_of_closed (fun x => (hd.opening x).not_isOpen) hstep).before hd)
    · exact .inr (.inl ((moves_of_closed (fun x => (hd.stage x).opening.not_isOpen) hstep).greeting_of hd))
    · exact .inr (.inr (hS.talk d e d' hd he hstep))

/-- A run keeps to the phases. -/
theorem run_phases (h : c.SecpLaws) (hr : c.rlp.Lawful) (hhalf : Halves P half)
    (hshort : ∀ x, (helloFrame c (n x).hello).length < 2 ^ 24) (hS : Outcome P n ok S)
    {k : Connection c} (hk : Connection.connect P.clientKey (idOf P .server) P.clientNonce P.clientEphemeralKey
      P.authRng = .ok k) {es : List Event} (hes : ∀ e ∈ es, ok e)
    (hrun : Runs.run (step n) (start k (.incoming P.serverKey P.serverNonce P.serverEphemeralKey P.ackRng)) es =
      some d) : Phases P n half S d :=
  Runs.Along.invariant (step_phases h hr hhalf hshort hS) es (Runs.Along.of_mem fun e he _ => hes e he)
    (.inl (start_before hk h)) hrun

/-- Both ends talk in the end. -/
theorem outcome_session (hr : c.rlp.Lawful) (hl : c.rlp.ListLaws) (hz : c.SnapLaws)
    (hfit : ∀ x, (n x).hello.Fits c) (ha : Agrees n p) (hne : p.sharedCapabilities ≠ [])
    (hn : p.sharedCapabilities.Pairwise (·.name < ·.name)) : Outcome P n (Event.Carried c p) (Session P n p) where
  start _ hd hs := hd.session hs
  resume d x e hd hres := by
    rcases hd.stage x with hs | hs
    · exact (hd.receiveHello hr hl hfit ha hne hs hres).1
    · rw [Party.resume, hs] at hres
      cases hres
  talk _ _ _ hd he hstep := hd.talk hr hz hn he hstep

/-- Both ends fail in the end. -/
theorem outcome_refusal (hr : c.rlp.Lawful) (hl : c.rlp.ListLaws) (hz : c.SnapLaws)
    (hfit : ∀ x, (n x).hello.Fits c) (hbye : ∀ x, Farewell c (n x))
    (hnone : ∀ x, shareCapabilities (n x).capabilities (n x.other).hello.capabilities = []) :
    Outcome P n (fun _ => True) (Refusal (c := c) n) where
  start _ hd hs := hd.refusal hs
  resume d x e hd hres := by
    rcases hd.stage x with hs | hs
    · exact (hd.receiveHello hr hl hz hfit hbye hnone hs hres).1
    · rw [Party.resume, hs] at hres
      cases hres
  talk d e d' hd _ hstep := by
    refine (moves_of_closed (fun x => ?_) hstep).refusal hd
    rcases hd.stage x with hs | hs <;> rw [Party.isOpen, hs]

/-- The two ends, when they have a capability in common: no future fails, an end that has opened has what was
negotiated, knows the id of the other, and hears what the other has sent; when nothing is left to be done, both ends
have opened. -/
structure Meets (P : Parties c) (n : Side → Setup) (p : Conversation.Agreed) (d : Meeting c) : Prop where
  stage : ∀ x, (d x).stage ≠ .panicked ∧ ∀ e, (d x).stage ≠ .failed e
  negotiated : ∀ x, (d x).isOpen = true → (d x).station.stream.sharedCapabilities = p.sharedCapabilities
  remoteId : ∀ x, (d x).isOpen = true → (d x).ecies.remoteId = idOf P x.other
  delivers : ∀ x, (d x).isOpen = true → Conversation.Delivers d.conversation x
  still : Still n d → ∀ x, (d x).isOpen = true

theorem Session.meets (hr : c.rlp.Lawful) (hl : c.rlp.ListLaws) (hz : c.SnapLaws) (hfit : ∀ x, (n x).hello.Fits c)
    (ha : Agrees n p) (hne : p.sharedCapabilities ≠ []) (hn : p.sharedCapabilities.Pairwise (·.name < ·.name))
    (hd : Session P n p d) : Meets P n p d where
  stage x := by
    rcases hd.stage x with hs | hs <;> rw [hs] <;> exact ⟨nofun, nofun⟩
  negotiated x hx := (hd.synced.sound x hx).caps
  remoteId x _ := hd.synced.remoteId x
  delivers x hx := by
    refine hd.synced.delivers hr hz hn hx ?_
    rw [unread, Side.other_other, if_pos hx]
  still hstill x := by
    refine isOpen_of_stage ((hd.stage x).resolve_left fun hs => ?_)
    obtain ⟨e, hres⟩ : ∃ e, (d x).resume (n x) = some e := by
      rw [Party.resume, hs]
      exact ⟨_, rfl⟩
    have hopened := (hd.receiveHello hr hl hfit ha hne hs hres).2 (hstill.inbound x)
    rw [(hstill x).2.2 _ hres, hs] at hopened
    cases hopened

/-- While nobody has opened, and something is left to be done. -/
theorem meets_of_opening (hd : ∀ x, (d x).Opening) (hstill : ¬Still n d) : Meets P n p d := by
  have hclosed : ∀ x, ¬(d x).isOpen = true := fun x => by
    rw [(hd x).not_isOpen]
    exact Bool.false_ne_true
  exact ⟨fun x => (hd x).sound, fun x hx => absurd hx (hclosed x), fun x hx => absurd hx (hclosed x),
    fun x hx => absurd hx (hclosed x), fun h => absurd h hstill⟩

/-- **Two peers meet**: after `connect` at one end and `incoming` at the other, whatever way the bytes arrive and in
whatever order the futures are resumed and the streams used. -/
theorem meeting_correct (h : c.SecpLaws) (hr : c.rlp.Lawful) (hl : c.rlp.ListLaws) (hz : c.SnapLaws) (P : Parties c)
    (hfit : ∀ x, (n x).hello.Fits c) (hshort : ∀ x, (helloFrame c (n x).hello).length < 2 ^ 24)
    (hdistinct : ∀ x, ((n x).capabilities.map (·.key)).Nodup)
    (hlen : ∀ cap ∈ (n .client).capabilities, ∀ cap' ∈ (n .server).capabilities, cap.key = cap'.key →
      cap.length = cap'.length)
    (hversion : (n .client).protocolVersion = (n .server).protocolVersion)
    (hcommon : ∃ cap ∈ (n .client).capabilities, cap.key ∈ (n .server).capabilities.map (·.key)) :
    ∃ k p, Connection.connect P.clientKey (idOf P .server) P.clientNonce P.clientEphemeralKey P.authRng = .ok k ∧
      (∀ x, Shared (n x).capabilities ((n x.other).capabilities.map (·.key)) p.sharedCapabilities) ∧
      (∀ x, p.snappy = decide ((n x).protocolVersion = .v5)) ∧
      ∀ (es : List Event) (d : Meeting c), (∀ e ∈ es, e.Carried c p) →
        Runs.run (step n) (start k (.incoming P.serverKey P.serverNonce P.serverEphemeralKey P.ackRng)) es = some d →
        Meets P n p d := by
  obtain ⟨half, hhalf⟩ := exists_halves P
  -- what is negotiated
  let p : Conversation.Agreed := ⟨(), shareCapabilities (n .client).capabilities (n .server).hello.capabilities,
    decide ((n .client).protocolVersion = .v5), false⟩
  have hclient : Shared (n .client).capabilities ((n .server).capabilities.map (·.key)) p.sharedCapabilities :=
    shareCapabilities_shared (hdistinct .client) _
  have hserver := shareCapabilities_shared (hdistinct .server) ((n .client).capabilities.map (·.key))
  have heq := hclient.eq_of_lengths hserver hlen
  have ha : Agrees n p := ⟨fun | .client => rfl | .server => heq.symm, fun
    | .client => rfl
    | .server => congrArg (fun v => decide (v = .v5)) hversion.symm⟩
  have hne : p.sharedCapabilities ≠ [] := by
    obtain ⟨cap, hcap, hkey⟩ := hcommon
    obtain ⟨best, ⟨hbest, -⟩, -⟩ := hclient.exists_unique (hdistinct .client) ⟨hcap, hkey⟩
    exact List.ne_nil_of_mem hbest
  have hS := outcome_session (P := P) hr hl hz hfit ha hne hclient.ascending
  obtain ⟨k, hk, -⟩ := Connection.connect_opens h hr P
  refine ⟨k, p, hk, fun | .client => hclient | .server => heq ▸ hserver, fun x => (ha.snappy x).symm,
    fun es d hes hrun => ?_⟩
  rcases run_phases h hr hhalf hshort hS hk hes hrun with hd | hd | hd
  · exact meets_of_opening hd.opening (hd.not_still h hr hhalf)
  · by_cases hall : ∀ x, (d x).stage = .receiveHello
    · exact (hd.session hall).meets hr hl hz hfit ha hne hclient.ascending
    · exact meets_of_opening (fun x => (hd.stage x).opening) fun hstill => hall (hd.still hshort hstill)
  · exact hd.meets hr hl hz hfit ha hne hclient.ascending

section Example

open Software

/-- Two nodes that have `eth` in common. -/
def ethNodes : Side → Setup
  | .client => ethLesNode
  | .server => ethNode

theorem ethNodes_fit : ∀ x, (ethNodes x).hello.Fits crates
  | .client => ethLesNode_fits
  | .server => ethNode_fits

theorem ethNodes_short : ∀ x, (helloFrame crates (ethNodes x).hello).length < 2 ^ 24
  | .client => by decide +kernel
  | .server => by decide +kernel

/-- The two nodes, as the example parties. -/
theorem ethNodes_meeting : ∃ k p, Connection.connect exampleParties.clientKey (idOf exampleParties .server)
      exampleParties.clientNonce exampleParties.clientEphemeralKey exampleParties.authRng = .ok k ∧
    (∀ x, Shared (ethNodes x).capabilities ((ethNodes x.other).capabilities.map (·.key)) p.sharedCapabilities) ∧
    (∀ x, p.snappy = decide ((ethNodes x).protocolVersion = .v5)) ∧
    (∀ (es : List Event) (d : Meeting crates), (∀ e ∈ es, e.Carried crates p) →
      Runs.run (step ethNodes) (start k (.incoming exampleParties.serverKey exampleParties.serverNonce
        exampleParties.serverEphemeralKey exampleParties.ackRng)) es = some d → Meets exampleParties ethNodes p d) ∧
    ∃ es d, Runs.run (step ethNodes) (start k (.incoming exampleParties.serverKey exampleParties.serverNonce
      exampleParties.serverEphemeralKey exampleParties.ackRng)) es = some d ∧ ∀ x, (d x).isOpen = true := by
  obtain ⟨k, p, hk, hshared, hsnappy, hmeets⟩ := meeting_correct secpLaws Rlp.standard_lawful Rlp.standard_listLaws
    snapLaws exampleParties ethNodes_fit ethNodes_short (fun | .client => by decide | .server => by decide) (by decide)
    rfl (by decide)
  refine ⟨k, p, hk, hshared, hsnappy, hmeets, ?_⟩
  obtain ⟨es, d, hes, hrun, hstill⟩ := exists_still ethNodes (start k (.incoming exampleParties.serverKey
    exampleParties.serverNonce exampleParties.serverEphemeralKey exampleParties.ackRng))
  exact ⟨es, d, hrun, (hmeets es d (fun e he => (hes e he).carried) hrun).still hstill⟩

end Example

/-- The two ends, when they have nothing in common: an end that has read the `Hello` of the other has failed for that
reason; when nothing is left to be done, both ends have. -/
structure Refused (n : Side → Setup) (d : Meeting c) : Prop where
  stage : ∀ x, (d x).isOpen = false ∧ (d x).stage ≠ .panicked ∧
    ∀ e, (d x).stage = .failed e → e = .hello .noSharedCapabilities
  still : Still n d → ∀ x, (d x).stage = .failed (.hello .noSharedCapabilities)

theorem refused_of_opening (hd : ∀ x, (d x).Opening) (hstill : ¬Still n d) : Refused n d :=
  ⟨fun x => ⟨(hd x).not_isOpen, (hd x).sound.1, fun e he => absurd he ((hd x).sound.2 e)⟩,
    fun h => absurd h hstill⟩

theorem Refusal.refused (hr : c.rlp.Lawful) (hl : c.rlp.ListLaws) (hz : c.SnapLaws)
    (hfit : ∀ x, (n x).hello.Fits c) (hbye : ∀ x, Farewell c (n x))
    (hnone : ∀ x, shareCapabilities (n x).capabilities (n x.other).hello.capabilities = []) (hd : Refusal n d) :
    Refused n d where
  stage x := by
    rcases hd.stage x with hs | hs
    · have hx : (d x).Opening := .inr (.inr hs)
      exact ⟨hx.not_isOpen, hx.sound.1, fun e he => absurd he (hx.sound.2 e)⟩
    · rw [Party.isOpen, hs]
      exact ⟨rfl, nofun, fun e he => (Party.Stage.failed.inj he).symm⟩
  still hstill x := by
    refine (hd.stage x).resolve_left fun hs => ?_
    obtain ⟨e, hres⟩ : ∃ e, (d x).resume (n x) = some e := by
      rw [Party.resume, hs]
      exact ⟨_, rfl⟩
    have hfailed := (hd.receiveHello hr hl hz hfit hbye hnone hs hres).2 (hstill.inbound x)
    rw [(hstill x).2.2 _ hres, hs] at hfailed
    cases hfailed

theorem shareCapabilities_eq_nil {caps : List CapabilityInfo} {remote : List CapabilityMessage}
    (h : ∀ cap ∈ caps, cap.key ∉ remote) : shareCapabilities caps remote = [] :=
  List.eq_nil_iff_forall_not_mem.2 fun cap hcap => by
    have hcommon := (mem_shareCapabilities.1 hcap).1
    exact h cap hcommon.1 hcommon.2

/-- **Two peers that have nothing in common do not meet**, whatever way the bytes arrive and in whatever order the
futures are resumed. -/
theorem meeting_refused (h : c.SecpLaws) (hr : c.rlp.Lawful) (hl : c.rlp.ListLaws) (hz : c.SnapLaws) (P : Parties c)
    (hfit : ∀ x, (n x).hello.Fits c) (hshort : ∀ x, (helloFrame c (n x).hello).length < 2 ^ 24)
    (hbye : ∀ x, Farewell c (n x))
    (hnone : ∀ cap ∈ (n .client).capabilities, cap.key ∉ (n .server).capabilities.map (·.key)) :
    ∃ k, Connection.connect P.clientKey (idOf P .server) P.clientNonce P.clientEphemeralKey P.authRng = .ok k ∧
      ∀ (es : List Event) (d : Meeting c),
        Runs.run (step n) (start k (.incoming P.serverKey P.serverNonce P.serverEphemeralKey P.ackRng)) es = some d →
        Refused n d := by
  obtain ⟨half, hhalf⟩ := exists_halves P
  have hnil : ∀ x, shareCapabilities (n x).capabilities (n x.other).hello.capabilities = [] := fun
    | .client => shareCapabilities_eq_nil hnone
    | .server => shareCapabilities_eq_nil fun cap hcap hmem => by
      obtain ⟨other, hother, hkey⟩ := List.mem_map.1 hmem
      have hkey : other.key = cap.key := hkey
      exact hnone other hother (hkey ▸ List.mem_map_of_mem hcap)
  obtain ⟨k, hk, -⟩ := Connection.connect_opens h hr P
  refine ⟨k, hk, fun es d hrun => ?_⟩
  rcases run_phases h hr hhalf hshort (outcome_refusal hr hl hz hfit hbye hnil) hk (fun _ _ => trivial) hrun with
    hd | hd | hd
  · exact refused_of_opening hd.opening (hd.not_still h hr hhalf)
  · by_cases hall : ∀ x, (d x).stage = .receiveHello
    · exact (hd.refusal hall).refused hr hl hz hfit hbye hnil
    · exact refused_of_opening (fun x => (hd.stage x).opening) fun hstill => hall (hd.still hshort hstill)
  · exact hd.refused hr hl hz hfit hbye hnil

section Example

open Software

/-- A node that offers `les`. -/
def lesNode : Setup := ⟨FixedBytes.zero 64, .v4, "c", [les], 30305⟩

/-- Two nodes that have nothing in common. -/
def strangers : Side → Setup
  | .client => lesNode
  | .server => ethNode

theorem strangers_fit : ∀ x, (strangers x).hello.Fits crates
  | .client => hello_fits (by decide) (by decide) (by decide +kernel)
  | .server => ethNode_fits

theorem strangers_short : ∀ x, (helloFrame crates (strangers x).hello).length < 2 ^ 24
  | .client => by decide +kernel
  | .server => by decide +kernel

theorem farewell_crates (n : Setup) : Farewell crates n := by
  have hall : ∀ snappy, ∀ body ∈ frameBody crates (⟨(), [], snappy, false⟩ : Conversation.Agreed)
      (.disconnect .uselessPeer), body.length < 2 ^ 24 := by decide +kernel
  exact ⟨nofun, fun body hbody => hall _ body hbody⟩

/-- The two nodes, as the example parties. -/
theorem strangers_refused : ∃ k, Connection.connect exampleParties.clientKey (idOf exampleParties .server)
      exampleParties.clientNonce exampleParties.clientEphemeralKey exampleParties.authRng = .ok k ∧
    (∀ (es : List Event) (d : Meeting crates),
      Runs.run (step strangers) (start k (.incoming exampleParties.serverKey exampleParties.serverNonce
        exampleParties.serverEphemeralKey exampleParties.ackRng)) es = some d → Refused strangers d) ∧
    ∃ es d, Runs.run (step strangers) (start k (.incoming exampleParties.serverKey exampleParties.serverNonce
      exampleParties.serverEphemeralKey exampleParties.ackRng)) es = some d ∧
        ∀ x, (d x).stage = .failed (.hello .noSharedCapabilities) := by
  obtain ⟨k, hk, hrefused⟩ := meeting_refused secpLaws Rlp.standard_lawful Rlp.standard_listLaws snapLaws exampleParties
    strangers_fit strangers_short (fun x => farewell_crates _) (by decide)
  refine ⟨k, hk, hrefused, ?_⟩
  obtain ⟨es, d, -, hrun, hstill⟩ := exists_still strangers (start k (.incoming exampleParties.serverKey
    exampleParties.serverNonce exampleParties.serverEphemeralKey exampleParties.ackRng))
  exact ⟨es, d, hrun, (hrefused es d hrun).still hstill⟩

end Example

end Meeting

end EthereumSentry
