import EthereumSentry.Devp2p.Ecies.Connect
import EthereumSentry.Devp2p.Peer.Conversation
import EthereumSentry.Devp2p.Peer.Hello

/-!
# The opening of two peers

`PeerStream::connect` at one end and `PeerStream::incoming` at the other, through the handshake and the exchange of
`Hello` to the conversation: the futures are resumed, bytes move, and a stream that is returned is used
(`Meeting.step`). A future that goes on gets further, so that from every state some resuming and moving of bytes leaves
nothing to be done (`exists_still`).
-/

set_option autoImplicit false

namespace EthereumSentry

open ECIES

variable {c : Crates}

open PeerStream

/-! ## The system -/

/-- What `PeerStream::connect` and `PeerStream::incoming` fail with. -/
inductive OpenError where
  | connect (e : ConnectError)
  | hello (e : HelloError)

/-- Where `PeerStream::connect` or `PeerStream::incoming` goes on. -/
inductive Party.Stage (c : Crates) where
  /-- In `ECIESStream::connect` or `ECIESStream::incoming`. -/
  | transport (stage : Connection.Stage c)
  /-- `new` sends its `Hello`. -/
  | sendHello
  /-- `new` waits for a `Hello`. -/
  | receiveHello
  /-- The stream is returned. -/
  | opened
  | failed (e : OpenError)
  | panicked

/-- One end; the capabilities and the compression of its stream are known when it is returned. -/
structure Party (c : Crates) where
  stage : Party.Stage c
  station : Station c

/-- Both ends. -/
abbrev Meeting (c : Crates) : Type := Side → Party c

namespace Party

/-- The ECIES stream of an end. -/
def ecies (e : Party c) : ECIESStream c := e.station.stream.stream

/-- The end goes on at a stage. -/
def goOn (e : Party c) (stage : Stage c) (s : ECIESStream c) : Party c :=
  ⟨stage, { e.station with stream := { e.station.stream with stream := s } }⟩

@[simp] theorem goOn_stage (e : Party c) (stage : Stage c) (s : ECIESStream c) : (e.goOn stage s).stage = stage := rfl

@[simp] theorem goOn_ecies (e : Party c) (stage : Stage c) (s : ECIESStream c) : (e.goOn stage s).ecies = s := rfl

/-- The end at its start. -/
def start (k : Connection c) : Party c := ⟨.transport k.stage, ⟨⟨k.stream, [], false, false⟩, [], [], [], false, false⟩⟩

/-- The stream is returned. -/
def isOpen (e : Party c) : Bool :=
  match e.stage with
  | .opened => true
  | _ => false

/-- What an end keeps of a step of its transport. -/
def connecting (e : Party c) : EStateM.Result (Stop ConnectError) (Connection c) Unit → Party c
  | .ok _ ⟨.stream, s⟩ => e.goOn .sendHello s
  | .ok _ ⟨stage, s⟩ => e.goOn (.transport stage) s
  | .error (.err error) k => e.goOn (.failed (.connect error)) k.stream
  | .error .panic k => e.goOn .panicked k.stream

/-- What an end keeps of sending its `Hello`. -/
def greeted (e : Party c) : EStateM.Result (Stop HelloError) (ECIESStream c) Unit → Party c
  | .ok _ s => e.goOn .receiveHello s
  | .error (.err error) s => e.goOn (.failed (.hello error)) s
  | .error .panic s => e.goOn .panicked s

/-- What an end keeps of waiting for a `Hello`. -/
def received (e : Party c) :
    EStateM.Result (Stop HelloError) (ECIESStream c) (Poll (PeerStream (ECIESStream c))) → Party c
  | .ok .pending s => e.goOn .receiveHello s
  | .ok (.ready p) _ => ⟨.opened, { e.station with stream := p }⟩
  | .error (.err error) s => e.goOn (.failed (.hello error)) s
  | .error .panic s => e.goOn .panicked s

/-- The future of an end is resumed. -/
def resume (n : Setup) (e : Party c) : Option (Party c) :=
  match e.stage with
  | .transport stage => some (e.connecting (Connection.resume.run ⟨stage, e.ecies⟩))
  | .sendHello => some (e.greeted ((n.sendHello c (ECIESStream.frames c)).run e.ecies))
  | .receiveHello => some (e.received ((n.receiveHello c (ECIESStream.frames c)).run e.ecies))
  | .opened | .failed _ | .panicked => none

end Party

namespace Meeting

open Function (update)

/-- The two ends as ends of a conversation. -/
def conversation (d : Meeting c) : Conversation c := fun x => (d x).station

/-- `connect` with these arguments at one end, and `incoming` at the other. -/
def start (client server : Connection c) : Meeting c
  | .client => .start client
  | .server => .start server

inductive Event where
  /-- The future of an end is resumed. -/
  | resume (x : Side)
  /-- Bytes move, or the stream of an end is used. -/
  | talk (e : Conversation.Event)

/-- Bytes always move; a stream is used when it is returned. -/
def Allows (d : Meeting c) : Conversation.Event → Prop
  | .send x _ | .poll x => (d x).isOpen = true
  | .flush _ | .deliver _ _ => True

instance (d : Meeting c) (e : Conversation.Event) : Decidable (d.Allows e) := by
  cases e <;> unfold Allows <;> infer_instance

/-- One step. -/
def step (n : Side → Setup) (d : Meeting c) : Event → Option (Meeting c)
  | .resume x => (d x).resume (n x) |>.map (update d x)
  | .talk e => if d.Allows e then
      (Conversation.step d.conversation e).map fun k x => { d x with station := k x }
    else none

end Meeting

/-! ## Getting further -/

namespace Connection

/-- How far `connect` or `incoming` has come. -/
def Stage.rank : Stage c → Nat
  | .sendAuth _ | .receiveAuth _ => 0
  | .receiveAck | .sendAck _ _ => 1
  | .stream => 2

/-- A future that goes on gets further, or stays where it is. -/
theorem rank_resume {k k' : Connection c} (h : resume.run k = .ok () k') :
    k'.stage = k.stage ∨ k.stage.rank < k'.stage.rank := by
  unfold resume at h
  rw [Prog.run_bind_ok (EStateM.run_get _)] at h
  cases hs : k.stage with
  | sendAuth rng =>
    simp only [hs] at h
    obtain ⟨_, t, -, h⟩ := Prog.run_bind_eq_ok.1 h
    cases h
    exact .inr Nat.zero_lt_one
  | receiveAck =>
    simp only [hs] at h
    obtain ⟨v, t, hpoll, h⟩ := Prog.run_bind_eq_ok.1 h
    obtain ⟨s, -, rfl⟩ := Prog.run_zoom_eq_ok.1 hpoll
    cases v with
    | pending =>
      cases h
      exact .inl hs
    | ready ack =>
      dsimp only at h
      split at h
      · cases h
        exact .inr Nat.one_lt_two
      · cases h
  | receiveAuth rng =>
    simp only [hs] at h
    obtain ⟨v, t, hpoll, h⟩ := Prog.run_bind_eq_ok.1 h
    obtain ⟨s, -, rfl⟩ := Prog.run_zoom_eq_ok.1 hpoll
    split at h
    · cases h
      exact .inl hs
    · cases h
      exact .inr Nat.zero_lt_one
    · cases h
  | sendAck remoteId rng =>
    simp only [hs] at h
    obtain ⟨_, t, -, h⟩ := Prog.run_bind_eq_ok.1 h
    cases h
    exact .inr Nat.one_lt_two
  | stream =>
    simp only [hs] at h
    cases h
    exact .inl hs

end Connection

namespace Party

/-- How far an end has come. -/
def rank (e : Party c) : Nat :=
  match e.stage with
  | .transport stage => stage.rank
  | .sendHello => 3
  | .receiveHello => 4
  | .opened | .failed _ | .panicked => 5

theorem rank_le (e : Party c) : e.rank ≤ 5 := by
  unfold rank
  rcases e.stage with (_ | _ | _ | _ | _) | _ | _ | _ | _ | _ <;> simp [Connection.Stage.rank]

/-- An end that goes on to another stage gets further. -/
theorem rank_lt_of_resume {n : Setup} {e e' : Party c} (h : e.resume n = some e') (hne : e'.stage ≠ e.stage) :
    e.rank < e'.rank := by
  unfold resume at h
  unfold rank
  cases hs : e.stage with
  | transport stage =>
    have hle : stage.rank ≤ 2 := by cases stage <;> simp [Connection.Stage.rank]
    rw [hs] at h hne
    cases h
    cases hrun : Connection.resume.run ⟨stage, e.ecies⟩ with
    | ok _ k =>
      obtain ⟨stage', s⟩ := k
      rw [hrun] at hne
      have hrank := Connection.rank_resume hrun
      cases stage' with
      | stream => exact Nat.lt_succ_of_le hle
      | _ => exact hrank.resolve_left fun hstage => hne (congrArg Stage.transport hstage)
    | error err k =>
      have hlt : stage.rank < 5 := lt_of_le_of_lt hle (by decide)
      cases err <;> exact hlt
  | sendHello =>
    rw [hs] at h hne
    cases h
    cases (n.sendHello c (ECIESStream.frames c)).run e.ecies with
    | ok _ s => exact Nat.lt_succ_self 3
    | error err s => cases err <;> exact (by decide : 3 < 5)
  | receiveHello =>
    rw [hs] at h hne
    cases h
    cases hrun : (n.receiveHello c (ECIESStream.frames c)).run e.ecies with
    | ok p s =>
      rw [hrun] at hne
      cases p with
      | pending => exact absurd rfl hne
      | ready => exact Nat.lt_succ_self 4
    | error err s =>
      cases err <;> exact Nat.lt_succ_self 4
  | opened | failed | panicked =>
    rw [hs] at h
    cases h

end Party

namespace Meeting

open Function (update update_self update_of_ne)

/-- Nothing is left to be done: no byte is on its way, and a future that is resumed stays where it is. -/
def Still (n : Side → Setup) (d : Meeting c) : Prop :=
  ∀ x, (d x).station.wire = [] ∧ (d x).ecies.written = [] ∧ ∀ e, (d x).resume (n x) = some e → e.stage = (d x).stage

/-- The future of an end is resumed, or bytes move. -/
def Event.Opens : Event → Prop
  | .resume _ => True
  | .talk e => e.Moves

/-- Bytes that move leave the futures where they are. -/
theorem run_talk {n : Side → Setup} : ∀ {es : List Conversation.Event} {d : Meeting c} {k : Conversation c},
    (∀ e ∈ es, e.Moves) → Runs.run Conversation.step d.conversation es = some k →
      Runs.run (step n) d (es.map .talk) = some fun x => { d x with station := k x }
  | [], d, k, _, h => by
    cases h
    rfl
  | e :: es, d, k, hes, h => by
    obtain ⟨k', hk', h⟩ := Option.bind_eq_some_iff.1 h
    have hallows : d.Allows e := by
      have he := hes e (.head _)
      cases e with
      | flush | deliver => exact trivial
      | send | poll => exact he.elim
    rw [List.map_cons, Runs.run_cons, step, if_pos hallows, hk', Option.map_some, Option.bind_some,
      run_talk (d := fun x => { d x with station := k' x }) (fun e he => hes e (.tail _ he)) h]

/-- **The opening comes to its end**: from every state, some resuming and moving of bytes leaves nothing to be done. -/
theorem exists_still (n : Side → Setup) (d : Meeting c) :
    ∃ es d', (∀ e ∈ es, Event.Opens e) ∧ Runs.run (step n) d es = some d' ∧ Still n d' := by
  refine Runs.exists_rest (fun d => 10 - ((d .client).rank + (d .server).rank)) (fun d => ?_) d
  obtain ⟨es, k, hes, hrun, hk⟩ := Conversation.exists_settled d.conversation
  have hrun := run_talk (n := n) hes hrun
  have hopens : ∀ e ∈ es.map Event.talk, e.Opens := List.forall_mem_map.2 hes
  by_cases hstill : Still n fun x => { d x with station := k x }
  · exact ⟨_, _, hopens, hrun, .inl hstill⟩
  -- some end goes on
  obtain ⟨x, e, hres, hne⟩ : ∃ x e, ({ d x with station := k x } : Party c).resume (n x) = some e ∧
      e.stage ≠ (d x).stage := by
    by_contra hno
    refine hstill fun x => ⟨(hk x).1, (hk x).2, fun e hres => ?_⟩
    by_contra hne
    exact hno ⟨x, e, hres, hne⟩
  have hlt : (d x).rank < e.rank := Party.rank_lt_of_resume (e := { d x with station := k x }) hres hne
  have hle := e.rank_le
  refine ⟨es.map .talk ++ [.resume x], update (fun x => { d x with station := k x }) x e, ?_, ?_, .inr ?_⟩
  · exact List.forall_mem_append.2 ⟨hopens, List.forall_mem_singleton.2 trivial⟩
  · rw [Runs.run_snoc, hrun, Option.bind_some, step, hres, Option.map_some]
  · have hother : ∀ y, ({ d y with station := k y } : Party c).rank = (d y).rank := fun _ => rfl
    have hclient := (d .client).rank_le
    have hserver := (d .server).rank_le
    cases x with
    | client =>
      rw [update_self, update_of_ne (by decide), hother]
      omega
    | server =>
      rw [update_self, update_of_ne (by decide), hother]
      omega

end Meeting

end EthereumSentry
