import EthereumSentry.Devp2p.Ecies.Session
import EthereumSentry.Devp2p.Ecies.Stream
import EthereumSentry.Lib.Runs

/-!
# `connect` and `incoming`

The two ways to get an `ECIESStream`, from `ecies/proto.rs`. Both are futures: a `Connection` is one of them at the
point where it goes on (`Stage`), or the stream that it has returned. What happens to a connection is an `Op`: bytes
arrive, the future is resumed, the stream is polled, or a message is sent on it. A future that fails is dropped with its
transport; a stream goes on after an error.
-/

set_option autoImplicit false

namespace EthereumSentry

variable {c : Crates}

namespace ECIESStream

/-- `framed`: the codec over a transport. -/
def framed (codec : ECIESCodec c) (remoteId : PeerId) : ECIESStream c := ⟨⟨codec, []⟩, [], false, false, [], remoteId⟩

/-- `send` of `Framed`: the value is encoded into the write buffer. -/
def send (value : EgressECIESValue c) : Prog IoError (ECIESStream c) Unit := do
  let out ← Prog.zoom (·.rx.codec) (fun codec s => { s with rx := { s.rx with codec := codec } }) id
    (ECIESCodec.encode value)
  modify fun s => { s with written := s.written ++ out }

theorem startSend_eq (item : Bytes) : startSend item = (send (.message item) : Prog IoError (ECIESStream c) Unit) := rfl

end ECIESStream

/-- What `connect` and `incoming` fail with. -/
inductive ConnectError where
  | io (e : IoError)
  /-- `invalid handshake`. -/
  | invalidHandshake
  /-- `invalid handshake: expected ack, got .. instead`. -/
  | expectedAck (got : Option IngressECIESValue)
  deriving DecidableEq

/-- Where `connect` or `incoming` goes on. -/
inductive Connection.Stage (c : Crates) where
  /-- `connect` sends the auth message. -/
  | sendAuth (rng : ECIES.AuthRng c)
  /-- `connect` waits for the ack message. -/
  | receiveAck
  /-- `incoming` waits for the auth message. -/
  | receiveAuth (rng : ECIES.EncryptRng c)
  /-- `incoming` sends the ack message. -/
  | sendAck (remoteId : PeerId) (rng : ECIES.EncryptRng c)
  /-- The stream is returned. -/
  | stream

structure Connection (c : Crates) where
  stage : Connection.Stage c
  stream : ECIESStream c

namespace Connection

/-- The stream is returned. -/
def isOpen (k : Connection c) : Bool :=
  match k.stage with
  | .stream => true
  | _ => false

/-- `connect`, with what it draws. -/
def connect (secretKey : c.SecretKey) (remoteId : PeerId) (nonce : H256) (ephemeralSecretKey : c.SecretKey)
    (rng : ECIES.AuthRng c) : Except ConnectError (Connection c) :=
  match ECIESCodec.newClient secretKey remoteId nonce ephemeralSecretKey with
  | .error _ => .error (.io (.other "invalid handshake"))
  | .ok codec => .ok ⟨.sendAuth rng, .framed codec remoteId⟩

/-- `incoming`, with what it draws; the remote id is known later. -/
def incoming (secretKey : c.SecretKey) (nonce : H256) (ephemeralSecretKey : c.SecretKey) (rng : ECIES.EncryptRng c) :
    Connection c :=
  ⟨.receiveAuth rng, .framed (.newServer secretKey nonce ephemeralSecretKey) (FixedBytes.zero 64)⟩

/-- Run a function of the stream. -/
def inStream {α : Type} (x : Prog IoError (ECIESStream c) α) : Prog ConnectError (Connection c) α :=
  Prog.zoom (·.stream) (fun s k => { k with stream := s }) .io x

/-- The future goes on to its next `await`. -/
def resume : Prog ConnectError (Connection c) Unit := do
  let k ← get
  match k.stage with
  | .sendAuth rng => do
    inStream (ECIESStream.send (.auth rng))
    modify fun k => { k with stage := .receiveAck }
  | .receiveAck => do
    match ← inStream (ECIESStream.pollFramed k.stream.reads) with
    | .pending => pure ()
    | .ready ack =>
      if ack = some .ack then modify fun k => { k with stage := .stream }
      else Prog.fail (.expectedAck ack)
  | .receiveAuth rng => do
    match ← inStream (ECIESStream.pollFramed k.stream.reads) with
    | .pending => pure ()
    | .ready (some (.authReceive remoteId)) => modify fun k => { k with stage := .sendAck remoteId rng }
    | .ready _ => Prog.fail .invalidHandshake
  | .sendAck remoteId rng => do
    inStream (ECIESStream.send (.ack rng))
    modify fun k => { stage := .stream, stream := { k.stream with remoteId := remoteId } }
  | .stream => pure ()

end Connection

/-- What happens to a connection. -/
inductive Connection.Op where
  | arrive (read : Bytes)
  | resume
  | pollNext
  | startSend (item : Bytes)

namespace Connection

/-- Futures are resumed, streams are polled and sent to. -/
def Allows (k : Connection c) : Op → Prop
  | .arrive _ => True
  | .resume => k.isOpen = false
  | .pollNext => k.isOpen = true
  | .startSend _ => k.isOpen = true

instance (k : Connection c) (o : Op) : Decidable (k.Allows o) := by
  cases o <;> unfold Allows <;> infer_instance

def perform : Op → Prog ConnectError (Connection c) Unit
  | .arrive read => modify fun k => { k with stream := { k.stream with reads := k.stream.reads ++ [read] } }
  | .resume => resume
  | .pollNext => inStream (do let _ ← ECIESStream.pollNext)
  | .startSend item => inStream (ECIESStream.startSend item)

/-- An operation that is allowed; nothing is left after a panic or the error of a future. -/
def step (k : Connection c) (o : Op) : Option (Connection c) :=
  if k.Allows o then
    match (perform o).run k with
    | .ok _ k' => some k'
    | .error (.err _) k' => if k.isOpen then some k' else none
    | .error .panic _ => none
  else none

/-- A connection at its start. -/
inductive Starts : Connection c → Prop
  | connect {secretKey : c.SecretKey} {remoteId : PeerId} {nonce : H256} {ephemeralSecretKey : c.SecretKey}
      {rng : ECIES.AuthRng c} {k : Connection c}
      (h : connect secretKey remoteId nonce ephemeralSecretKey rng = .ok k) : Starts k
  | incoming (secretKey : c.SecretKey) (nonce : H256) (ephemeralSecretKey : c.SecretKey) (rng : ECIES.EncryptRng c) :
      Starts (incoming secretKey nonce ephemeralSecretKey rng)

end Connection

/-! ## Two ends that open -/

namespace ECIES

/-- The length bytes of a packet announce the rest of it. -/
theorem announced_packet (rng : EncryptRng c) (pk : c.PublicKey) {data : Bytes}
    (h : 65 + 16 + data.length + 32 < 2 ^ 16) :
    ECIESCodec.announced (packet rng pk data) + 2 = (packet rng pk data).length := by
  rw [ECIESCodec.announced, packet, List.take_left' (length_be 2 _), ofBe_be (by simpa using h), List.length_append,
    length_be, length_sealMessage]
  omega

end ECIES

namespace ECIESCodec

/-- A handshake message that has arrived and is understood. -/
theorem run_decodeHandshake {read : Bytes → Prog ECIESError (ECIES c) Unit}
    {value : Prog IoError (Decoding c) IngressECIESValue} {codec : ECIESCodec c} {msg : Bytes} {e : ECIES c}
    {v : IngressECIESValue} (hm : announced msg + 2 = msg.length) (hread : (read msg).run codec.ecies = .ok () e)
    (hvalue : value.run ⟨⟨e, .header⟩, []⟩ = .ok v ⟨⟨e, .header⟩, []⟩) :
    (decodeHandshake read value).run ⟨codec, msg⟩ = .ok (some v) ⟨⟨e, .header⟩, []⟩ := by
  unfold decodeHandshake
  rw [Prog.run_bind_ok (EStateM.run_get _), if_neg (by dsimp only; omega), if_neg (by dsimp only; omega),
    Prog.run_bind_ok (run_splitTo (by dsimp only; omega))]
  dsimp only
  rw [hm, List.take_length, List.drop_length, Prog.run_bind_ok (run_inDecode hread), setState,
    Prog.run_bind_ok (EStateM.run_modify _ _), Prog.run_bind_ok hvalue]
  rfl

end ECIESCodec

namespace ECIESStream

/-- A value that is decoded once a read has arrived. -/
theorem run_pollFramed_read {s : ECIESStream c} {read : Bytes} {v : IngressECIESValue} {d : Decoding c}
    (hs : s.readable = false) (hne : read ≠ [])
    (hd : ECIESCodec.decode.run { s.rx with buf := s.rx.buf ++ read } = .ok (some v) d) :
    (pollFramed [read]).run s =
      .ok (.ready (some v)) { s with rx := d, reads := [], eof := false, readable := true } := by
  have hwait : pollDecode.run s = .ok none s := by
    unfold pollDecode
    rw [Prog.run_bind_ok (EStateM.run_get s), if_neg (by simp [hs])]
    rfl
  have hempty : read.isEmpty = false := by
    cases read with
    | nil => exact absurd rfl hne
    | cons => rfl
  unfold pollFramed
  rw [Prog.run_bind_ok hwait]
  dsimp only
  rw [Prog.run_bind_ok (EStateM.run_modify _ _), pollFramed, hempty]
  have hdec : pollDecode.run { s with
      rx := { s.rx with buf := s.rx.buf ++ read }, reads := [], eof := false, readable := true } =
      .ok (some (some v)) { s with rx := d, reads := [], eof := false, readable := true } := by
    unfold pollDecode
    rw [Prog.run_bind_ok (EStateM.run_get _)]
    dsimp only
    rw [if_pos rfl, if_neg Bool.false_ne_true, Prog.run_bind_ok (run_inStream hd)]
    rfl
  rw [Prog.run_bind_ok hdec]
  rfl

theorem run_send {s : ECIESStream c} {value : EgressECIESValue c} {out : Bytes} {codec : ECIESCodec c}
    (h : (ECIESCodec.encode value).run s.rx.codec = .ok out codec) :
    (send value).run s = .ok () { s with rx := { s.rx with codec := codec }, written := s.written ++ out } := by
  have hz : (Prog.zoom (·.rx.codec) (fun codec s => { s with rx := { s.rx with codec := codec } }) id
      (ECIESCodec.encode value) : Prog IoError (ECIESStream c) Bytes).run s =
      .ok out { s with rx := { s.rx with codec := codec } } := Prog.run_zoom_ok h
  unfold send
  rw [Prog.run_bind_ok hz]
  rfl

end ECIESStream

namespace Connection

open ECIES

theorem run_inStream {α : Type} {x : Prog IoError (ECIESStream c) α} {stage : Stage c} {s s' : ECIESStream c} {a : α}
    (h : x.run s = .ok a s') : (inStream x).run ⟨stage, s⟩ = .ok a ⟨stage, s'⟩ := Prog.run_zoom_ok h

theorem step_resume {k k' : Connection c} (ho : k.isOpen = false) (h : resume.run k = .ok () k') :
    step k .resume = some k' := by
  rw [step, if_pos (show k.Allows .resume from ho), perform, h]

section Steps

variable {s s' : ECIESStream c}

/-- The stream after a handshake message. -/
def wrote (s : ECIESStream c) (codec : ECIESCodec c) (out : Bytes) : ECIESStream c :=
  { s with rx := { s.rx with codec := codec }, written := s.written ++ out }

theorem run_resume_sendAuth {rng : AuthRng c} {out : Bytes} {codec : ECIESCodec c}
    (h : (ECIESCodec.encode (.auth rng)).run s.rx.codec = .ok out codec) :
    resume.run ⟨.sendAuth rng, s⟩ = .ok () ⟨.receiveAck, wrote s codec out⟩ := by
  unfold resume
  rw [Prog.run_bind_ok (EStateM.run_get _), Prog.run_bind_ok (run_inStream (ECIESStream.run_send h))]
  rfl

theorem run_resume_sendAck {remoteId : PeerId} {rng : EncryptRng c} {out : Bytes} {codec : ECIESCodec c}
    (h : (ECIESCodec.encode (.ack rng)).run s.rx.codec = .ok out codec) :
    resume.run ⟨.sendAck remoteId rng, s⟩ = .ok () ⟨.stream, { wrote s codec out with remoteId := remoteId }⟩ := by
  unfold resume
  rw [Prog.run_bind_ok (EStateM.run_get _), Prog.run_bind_ok (run_inStream (ECIESStream.run_send h))]
  rfl

variable {v : Poll (Option IngressECIESValue)}

/-- `connect` goes on when the ack message has come. -/
theorem run_resume_receiveAck (h : (ECIESStream.pollFramed s.reads).run s = .ok v s') :
    resume.run ⟨.receiveAck, s⟩ = match v with
      | .pending => .ok () ⟨.receiveAck, s'⟩
      | .ready ack => if ack = some .ack then .ok () ⟨.stream, s'⟩
        else .error (.err (.expectedAck ack)) ⟨.receiveAck, s'⟩ := by
  unfold resume
  rw [Prog.run_bind_ok (EStateM.run_get _)]
  dsimp only
  rw [Prog.run_bind_ok (run_inStream h)]
  cases v with
  | pending => rfl
  | ready ack =>
    dsimp only
    split <;> rfl

/-- `incoming` goes on when the auth message has come. -/
theorem run_resume_receiveAuth {rng : EncryptRng c} (h : (ECIESStream.pollFramed s.reads).run s = .ok v s') :
    resume.run ⟨.receiveAuth rng, s⟩ = match v with
      | .pending => .ok () ⟨.receiveAuth rng, s'⟩
      | .ready (some (.authReceive id)) => .ok () ⟨.sendAck id rng, s'⟩
      | .ready _ => .error (.err .invalidHandshake) ⟨.receiveAuth rng, s'⟩ := by
  unfold resume
  rw [Prog.run_bind_ok (EStateM.run_get _)]
  dsimp only
  rw [Prog.run_bind_ok (run_inStream h)]
  rcases v with _ | _ | _ | _ | _ <;> rfl

variable {codec : ECIESCodec c} {msg written : Bytes} {id : PeerId} {d : Decoding c}

theorem step_receiveAck (hne : msg ≠ []) (hd : ECIESCodec.decode.run ⟨codec, msg⟩ = .ok (some .ack) d) :
    step ⟨.receiveAck, ⟨⟨codec, []⟩, [msg], false, false, written, id⟩⟩ .resume =
      some ⟨.stream, ⟨d, [], true, false, written, id⟩⟩ := by
  have hpoll : (ECIESStream.pollFramed [msg]).run ⟨⟨codec, []⟩, [msg], false, false, written, id⟩ = _ :=
    ECIESStream.run_pollFramed_read rfl hne hd
  exact step_resume rfl (by rw [run_resume_receiveAck hpoll]; rfl)

theorem step_receiveAuth {rng : EncryptRng c} {remoteId : PeerId} (hne : msg ≠ [])
    (hd : ECIESCodec.decode.run ⟨codec, msg⟩ = .ok (some (.authReceive remoteId)) d) :
    step ⟨.receiveAuth rng, ⟨⟨codec, []⟩, [msg], false, false, written, id⟩⟩ .resume =
      some ⟨.sendAck remoteId rng, ⟨d, [], true, false, written, id⟩⟩ := by
  have hpoll : (ECIESStream.pollFramed [msg]).run ⟨⟨codec, []⟩, [msg], false, false, written, id⟩ = _ :=
    ECIESStream.run_pollFramed_read rfl hne hd
  exact step_resume rfl (by rw [run_resume_receiveAuth hpoll])

end Steps

theorem announced_authMsg (hr : c.rlp.Lawful) (p : Parties c) :
    ECIESCodec.announced (authMsg p) + 2 = (authMsg p).length :=
  announced_packet _ _ (length_authPlain hr _ _ _)

theorem announced_ackMsg (hr : c.rlp.Lawful) (p : Parties c) :
    ECIESCodec.announced (ackMsg p) + 2 = (ackMsg p).length :=
  announced_packet _ _ (length_createAckUnencrypted hr _)

theorem ne_nil_of_announced {msg : Bytes} (h : ECIESCodec.announced msg + 2 = msg.length) : msg ≠ [] := by
  rintro rfl
  simp at h

/-- **`incoming` returns a stream** when the auth message of a client has arrived. -/
theorem incoming_opens (h : c.SecpLaws) (hr : c.rlp.Lawful) (p : Parties c) :
    Runs.run step (incoming p.serverKey p.serverNonce p.serverEphemeralKey p.ackRng)
      [.arrive (authMsg p), .resume, .resume] =
      some ⟨.stream, ⟨⟨⟨sessionServer p, .header⟩, []⟩, [], true, false, ackMsg p,
        pk2id (c.fromSecretKey p.clientKey)⟩⟩ := by
  have hlen := announced_authMsg hr p
  have hdecode : ECIESCodec.decode.run
      ⟨⟨newStaticServer p.serverKey p.serverNonce p.serverEphemeralKey, .auth⟩, authMsg p⟩ =
      .ok (some (.authReceive (pk2id (c.fromSecretKey p.clientKey)))) ⟨⟨authedServer p, .header⟩, []⟩ := by
    unfold ECIESCodec.decode
    rw [Prog.run_bind_ok (EStateM.run_get _)]
    exact ECIESCodec.run_decodeHandshake hlen (run_readAuth_server h hr p) rfl
  have hencode := run_encode_ack h hr p
  -- the stream before and after the auth message
  let waiting : ECIESStream c := ⟨⟨⟨newStaticServer p.serverKey p.serverNonce p.serverEphemeralKey, .auth⟩, []⟩,
    [authMsg p], false, false, [], FixedBytes.zero 64⟩
  let authed : ECIESStream c := ⟨⟨⟨authedServer p, .header⟩, []⟩, [], true, false, [], FixedBytes.zero 64⟩
  calc Runs.run step (incoming p.serverKey p.serverNonce p.serverEphemeralKey p.ackRng)
        [.arrive (authMsg p), .resume, .resume]
      = (step ⟨.receiveAuth p.ackRng, waiting⟩ .resume).bind (Runs.run step · [.resume]) := rfl
    _ = Runs.run step ⟨.sendAck (pk2id (c.fromSecretKey p.clientKey)) p.ackRng, authed⟩ [.resume] := by
      rw [step_receiveAuth (ne_nil_of_announced hlen) hdecode, Option.bind_some]
    _ = _ := by
      rw [Runs.run_cons, step_resume rfl (run_resume_sendAck (s := authed) hencode), Option.bind_some]
      rfl

/-- **`connect` returns a stream** when the ack message of its server has arrived. -/
theorem connect_opens (h : c.SecpLaws) (hr : c.rlp.Lawful) (p : Parties c) :
    ∃ k, connect p.clientKey (pk2id (c.fromSecretKey p.serverKey)) p.clientNonce p.clientEphemeralKey p.authRng =
        .ok k ∧
      Runs.run step k [.resume, .arrive (ackMsg p), .resume] =
        some ⟨.stream, ⟨⟨⟨sessionClient p, .header⟩, []⟩, [], true, false, authMsg p,
          pk2id (c.fromSecretKey p.serverKey)⟩⟩ := by
  have hlen := announced_ackMsg hr p
  have hencode := run_encode_auth hr p
  have hdecode : ECIESCodec.decode.run ⟨⟨{ freshClient p with initMsg := some (authMsg p) }, .ack⟩, ackMsg p⟩ =
      .ok (some .ack) ⟨⟨sessionClient p, .header⟩, []⟩ := by
    unfold ECIESCodec.decode
    rw [Prog.run_bind_ok (EStateM.run_get _)]
    exact ECIESCodec.run_decodeHandshake hlen (run_readAck_client h hr p) rfl
  refine ⟨⟨.sendAuth p.authRng, .framed ⟨freshClient p, .auth⟩ (pk2id (c.fromSecretKey p.serverKey))⟩, ?_, ?_⟩
  · unfold connect ECIESCodec.newClient
    rw [newStaticClient_eq h]
    rfl
  · let waiting : ECIESStream c := ⟨⟨⟨{ freshClient p with initMsg := some (authMsg p) }, .ack⟩, []⟩, [ackMsg p], false,
      false, authMsg p, pk2id (c.fromSecretKey p.serverKey)⟩
    rw [Runs.run_cons, step_resume rfl (run_resume_sendAuth (s := .framed ⟨freshClient p, .auth⟩ _) hencode),
      Option.bind_some]
    calc Runs.run step _ [.arrive (ackMsg p), .resume]
        = (step ⟨.receiveAck, waiting⟩ .resume).bind (Runs.run step · []) := rfl
      _ = _ := by
        rw [step_receiveAck (ne_nil_of_announced hlen) hdecode, Option.bind_some]
        rfl

end Connection

end EthereumSentry
