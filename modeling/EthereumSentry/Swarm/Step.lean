import EthereumSentry.Lib.Runs
import EthereumSentry.Sentry.CapabilityServer
import EthereumSentry.Swarm.Slots

/-!
# The swarm

`src/devp2p/src/rlpx.rs` and `src/devp2p/src/node_filter.rs`, with the capability server of `src/src/main.rs`: the
tasks of a swarm as a state and the steps that they take in any order (`Swarm.step`, and one by one `Swarm.Steps`). A
step is what a task does between two points where another task can come in: it awaits something, it waits for a lock, or
it leaves one. The lock of `streams` is taken and left within a step, except while `setup_peer_state` runs under it:
then `setup` says how far it has come, and the tasks that it has spawned already run.

The calls of `on_peer_connect` and of `on_peer_event` with a disconnect are recorded in `calls`.
-/

set_option autoImplicit false

namespace EthereumSentry

/-! ## The parts of the state -/

/-- `MemoryNodeFilter`. -/
structure MemoryNodeFilter where
  maxPeers : Nat
  banList : Finset PeerId

def MemoryNodeFilter.allow (f : MemoryNodeFilter) (poolSize : Nat) (id : PeerId) : Bool :=
  poolSize < f.maxPeers && id ∉ f.banList

inductive DisconnectInitiator where
  | localInitiator
  | localForceful
  | remote
  deriving DecidableEq, Repr

structure DisconnectSignal where
  initiator : DisconnectInitiator
  reason : DisconnectReason
  deriving DecidableEq

/-- `PeerState`. The connection id is the number of the attempt; the task group is the number of the session. -/
inductive PeerState where
  | connecting (connectionId : Nat)
  | connected (session : Nat)
  deriving DecidableEq

/-- How far the future of `add_peer_inner` has come. -/
inductive Future where
  /-- It has not been polled. -/
  | created
  /-- It has counted itself, and waits for the locks. -/
  | counted
  /-- It awaits the connection. -/
  | dialing
  /-- It runs `setup_peer_state`. -/
  | settingUp
  /-- It has returned, or it was dropped. -/
  | finished
  deriving DecidableEq

/-- The sender by which the reaper learns how the future has ended. -/
inductive Trigger where
  | held
  | sent
  | dropped
  deriving DecidableEq

inductive Reaper where
  | waiting
  | reaped
  | done
  deriving DecidableEq

/-- A call of `add_peer_inner`. -/
structure Attempt where
  remoteId : PeerId
  checkPeer : Bool
  future : Future
  trigger : Trigger
  reaper : Reaper

/-- The ingress router. -/
inductive Ingress (k : ForkCrates) where
  | unspawned
  /-- It awaits the next message. -/
  | waiting
  /-- It is about to look up whether the peer is valid. -/
  | handling (message : Message)
  /-- It is about to take the locks for a decoded `Status`. -/
  | accepting (v : StatusMessage k.ForkId)
  /-- It awaits the data provider or the control. -/
  | querying (id : MessageId) (data : Bytes)
  /-- It is about to look up the channel of the peer for the result of `handle_event`. -/
  | replying (event : OutboundEvent)
  /-- It awaits room in a channel. -/
  | sending
  | finished
  | panicked

/-- The egress router and disconnector. -/
inductive Egress where
  | unspawned
  /-- It is in `select!`. -/
  | selecting
  /-- It awaits the sink, and leaves afterwards if there is a signal. -/
  | flushing (disconnecting : Option DisconnectSignal)
  /-- It has left the loop, and awaits the grace period if it has sent a disconnect. -/
  | leaving (signal : DisconnectSignal)
  /-- It has called `on_peer_event` with the disconnect. -/
  | disconnecting
  /-- The peer is torn down. -/
  | tornDown
  /-- It has dropped the peer state, and with it the tasks of the session. -/
  | released
  deriving DecidableEq

inductive Pinger where
  | unspawned
  | looping
  | pinging
  | sleeping
  | finished
  deriving DecidableEq

/-- What `setup_peer_state` has set up. -/
structure Session (k : ForkCrates) where
  peer : PeerId
  ingress : Ingress k
  egress : Egress
  pinger : Pinger
  pinged : Bool
  /-- The channel of disconnect signals. -/
  signals : List DisconnectSignal
  /-- The session has put its peer among the valid peers. -/
  accepted : Bool

/-- How far `setup_peer_state` has come. -/
inductive Stage where
  /-- `on_peer_connect` has been called with some capabilities. -/
  | called (caps : List (CapabilityName × Nat))
  | prepared (firstEvents : List OutboundEvent)
  | registered
  | ingressSpawned
  | egressSpawned
  | pingerSpawned
  deriving DecidableEq

/-- A run of `setup_peer_state` under the lock of `streams`, for an attempt or for an incoming connection. -/
structure Setup where
  peer : PeerId
  session : Nat
  attempt : Option Nat
  stage : Stage

structure Swarm (k : ForkCrates) where
  mapping : AList fun _ : PeerId => PeerState
  nodeFilter : MemoryNodeFilter
  currentlyConnecting : Nat
  attempts : List Attempt
  sessions : List (Session k)
  setup : Option Setup
  server : CapabilityServerImpl k
  calls : List (PeerId × Call)
  /-- The assertion of `setup_peer` has failed. -/
  failed : Bool

/-! ## Steps inside a task -/

/-- What `stream.next()` returns, with the messages that are not of a subprotocol told apart. -/
inductive Received where
  | message (message : Message)
  | ping
  | pong
  | disconnect (reason : DisconnectReason)
  /-- The stream has ended, or has failed. -/
  | closed

/-- The branch that `select!` takes. -/
inductive Selected where
  | event (event : OutboundEvent)
  | ping
  | pong
  | signal

/-- The steps that touch nothing but their session. -/
inductive TaskEvent where
  | receive (received : Received)
  | answer (result : Except DisconnectReason (Option Message))
  | sent
  | startPing
  | pinged
  | checkPing
  | stopPinging
  | select (selected : Selected)
  | flush (ok : Bool)

/-- What is sent to the peer's channel for the result of `handle_event`. -/
def reply : Except DisconnectReason (Option Message) → Option OutboundEvent
  | .ok (some message) => some (.message capabilityName message)
  | .ok none => none
  | .error reason => some (.disconnect reason)

namespace Session

variable {k : ForkCrates}

/-- A new session, before its tasks are spawned. -/
def new (k : ForkCrates) (peer : PeerId) : Session k :=
  ⟨peer, .unspawned, .unspawned, .unspawned, false, [], false⟩

/-- The ingress router after `handle_event`. -/
def afterHandling (result : Except DisconnectReason (Option Message)) : Ingress k :=
  match reply result with
  | some event => .replying event
  | none => .waiting

/-- The ingress router receives something. -/
def receive (x : Session k) : Received → Session k
  | .message message => { x with ingress := .handling message }
  | .ping => { x with ingress := .sending }
  | .pong => { x with pinged := false }
  | .disconnect reason => { x with ingress := .finished, signals := x.signals ++ [⟨.remote, reason⟩] }
  | .closed => { x with ingress := .finished, signals := x.signals ++ [⟨.remote, .disconnectRequested⟩] }

/-- A branch of `select!`. -/
def select (x : Session k) : Selected → Option (Session k)
  | .event (.message _ _) => some { x with egress := .flushing none }
  | .event (.disconnect reason) => some { x with egress := .flushing (some ⟨.localInitiator, reason⟩) }
  | .ping | .pong => some { x with egress := .flushing none }
  | .signal => match x.signals with
    | [] => none
    | signal :: signals =>
      if signal.initiator = .localInitiator then some { x with egress := .flushing (some signal), signals := signals }
      else some { x with egress := .leaving signal, signals := signals }

/-- A task takes a step. Those that are at an await when the peer state is dropped take no more. -/
def step (x : Session k) (e : TaskEvent) : Option (Session k) :=
  if x.egress = .released then none
  else match e, x.ingress, x.egress, x.pinger with
    | .receive received, .waiting, _, _ => some (x.receive received)
    | .answer result, .querying _ _, _, _ => some { x with ingress := afterHandling result }
    | .sent, .sending, _, _ => some { x with ingress := .waiting }
    | .startPing, _, _, .looping => some { x with pinger := .pinging, pinged := true }
    | .pinged, _, _, .pinging => some { x with pinger := .sleeping }
    | .stopPinging, _, _, .pinging => some { x with pinger := .finished }
    | .checkPing, _, _, .sleeping =>
      if x.pinged then
        some { x with pinger := .finished, signals := x.signals ++ [⟨.localInitiator, .pingTimeout⟩] }
      else some { x with pinger := .looping }
    | .select selected, _, .selecting, _ => x.select selected
    | .flush true, _, .flushing none, _ => some { x with egress := .selecting }
    | .flush false, _, .flushing none, _ => some { x with egress := .leaving ⟨.localForceful, .tcpSubsystemError⟩ }
    | .flush _, _, .flushing (some signal), _ => some { x with egress := .leaving signal }
    | _, _, _, _ => none

end Session

/-! ## Steps of the swarm -/

/-- `AtomicUsize::fetch_add(1)`. -/
def fetchAdd (n : Nat) : Nat := (n + 1) % 2 ^ 64

/-- `AtomicUsize::fetch_sub(1)`. -/
def fetchSub (n : Nat) : Nat := (n + (2 ^ 64 - 1)) % 2 ^ 64

inductive Event (k : ForkCrates) where
  /-- `NodeFilter::ban`. -/
  | ban (id : PeerId)
  /-- The status updater writes the status message. -/
  | setStatus (status : Option (StatusData × k.ForkFilter))
  /-- `handle_incoming_request` has a peer stream. -/
  | incoming (remoteId : PeerId) (caps : List (CapabilityName × Nat))
  /-- A call of `add_peer_inner`, which spawns the reaper. -/
  | addPeer (remoteId : PeerId) (checkPeer : Bool)
  /-- The future of an attempt is polled for the first time. -/
  | poll (connectionId : Nat)
  /-- The future takes the locks, and inserts its entry if there is none. -/
  | claim (connectionId : Nat)
  /-- The future has a peer stream, and takes the lock. -/
  | adopt (connectionId : Nat) (caps : List (CapabilityName × Nat))
  /-- The future could not connect, and takes the lock. -/
  | giveUp (connectionId : Nat)
  /-- The future is dropped. -/
  | drop (connectionId : Nat)
  /-- The reaper learns how the future has ended. -/
  | reap (connectionId : Nat)
  /-- The reaper ends. -/
  | uncount (connectionId : Nat)
  /-- The next part of `setup_peer_state`. -/
  | proceed
  /-- A step of a task that touches nothing but its session. -/
  | task (session : Nat) (e : TaskEvent)
  /-- The ingress router handles a message. -/
  | handle (session : Nat)
  /-- The ingress router handles a decoded `Status`. -/
  | accept (session : Nat)
  /-- The ingress router looks up the channel for a reply. -/
  | reply (session : Nat)
  /-- The egress router calls `on_peer_event` with the disconnect. -/
  | disconnect (session : Nat)
  /-- `teardown_peer`. -/
  | teardown (session : Nat)
  /-- The egress router drops the peer state. -/
  | release (session : Nat)

namespace Swarm

variable {k : ForkCrates}

/-- A new swarm. -/
def new (k : ForkCrates) (maxPeers : Nat) : Swarm k :=
  ⟨∅, ⟨maxPeers, ∅⟩, 0, [], [], none, .new k, [], false⟩

/-- An attempt changes. -/
def setAttempt (s : Swarm k) (cid : Nat) (a : Attempt) : Swarm k := { s with attempts := s.attempts.set cid a }

/-- A session changes. -/
def setSession (s : Swarm k) (sid : Nat) (x : Session k) : Swarm k := { s with sessions := s.sessions.set sid x }

/-- The future of an attempt returns or is dropped, and its trigger with it. -/
def finish (s : Swarm k) (cid : Nat) (a : Attempt) : Swarm k :=
  s.setAttempt cid { a with future := .finished, trigger := .dropped }

/-- `setup_peer_state` is called, and calls `on_peer_connect`. -/
def beginSetup (s : Swarm k) (peer : PeerId) (attempt : Option Nat) (caps : List (CapabilityName × Nat)) : Swarm k :=
  { s with
    sessions := s.sessions ++ [.new k peer]
    setup := some ⟨peer, s.sessions.length, attempt, .called caps⟩
    calls := s.calls ++ [(peer, .connect)] }

/-- `handle_incoming_request`, under the lock. -/
def incoming (s : Swarm k) (remoteId : PeerId) (caps : List (CapabilityName × Nat)) : Swarm k :=
  match s.mapping.lookup remoteId with
  | some _ => s
  | none =>
    if s.nodeFilter.allow s.mapping.keys.length remoteId then s.beginSetup remoteId none caps else s

/-- `add_peer_inner`, under the locks before it connects. -/
def claim (s : Swarm k) (cid : Nat) (a : Attempt) : Swarm k :=
  match s.mapping.lookup a.remoteId with
  | some _ => s.finish cid a
  | none =>
    if a.checkPeer && !s.nodeFilter.allow s.mapping.keys.length a.remoteId then s.finish cid a
    else { s.setAttempt cid { a with future := .dialing } with
      mapping := s.mapping.insert a.remoteId (.connecting cid) }

/-- `add_peer_inner`, under the lock after it has connected. -/
def adopt (s : Swarm k) (cid : Nat) (a : Attempt) (caps : List (CapabilityName × Nat)) : Swarm k :=
  match s.mapping.lookup a.remoteId with
  | some (.connecting _) => (s.setAttempt cid { a with future := .settingUp }).beginSetup a.remoteId (some cid) caps
  | _ => s.finish cid a

/-- `add_peer_inner`, under the lock after it could not connect. -/
def giveUp (s : Swarm k) (cid : Nat) (a : Attempt) : Swarm k :=
  match s.mapping.lookup a.remoteId with
  | some (.connecting _) => { s.finish cid a with mapping := s.mapping.erase a.remoteId }
  | _ => s.finish cid a

/-- The reaper of a future that was dropped, under the lock. -/
def reap (s : Swarm k) (cid : Nat) (a : Attempt) : Swarm k :=
  let s' := s.setAttempt cid { a with reaper := .reaped }
  if s.mapping.lookup a.remoteId = some (.connecting cid) then { s' with mapping := s.mapping.erase a.remoteId } else s'

/-- The end of `setup_peer_state`: the entry is connected, and the reaper is told. -/
def install (s : Swarm k) (u : Setup) : Swarm k :=
  let attempts := match u.attempt with
    | some cid => s.attempts.modify cid fun a => { a with future := .finished, trigger := .sent }
    | none => s.attempts
  { s with mapping := s.mapping.insert u.peer (.connected u.session), setup := none, attempts := attempts }

/-- The next part of `setup_peer_state`. -/
def proceed (s : Swarm k) (u : Setup) : Option (Swarm k) :=
  match u.stage with
  | .called caps => (s.server.firstEvents caps).map fun firstEvents =>
    { s with setup := some { u with stage := .prepared firstEvents } }
  | .prepared firstEvents =>
    match s.server.setupPeer u.peer ⟨u.session, firstEvents⟩ with
    | some server => some { s with server := server, setup := some { u with stage := .registered } }
    | none => some { s with failed := true }
  | .registered => s.sessions[u.session]?.map fun x =>
    { s.setSession u.session { x with ingress := .waiting } with setup := some { u with stage := .ingressSpawned } }
  | .ingressSpawned => s.sessions[u.session]?.bind fun x =>
    if x.egress = .unspawned then
      some { s.setSession u.session { x with egress := .selecting } with
        setup := some { u with stage := .egressSpawned } }
    else none
  | .egressSpawned => s.sessions[u.session]?.map fun x =>
    { s.setSession u.session { x with pinger := .looping } with setup := some { u with stage := .pingerSpawned } }
  | .pingerSpawned => some (s.install u)

/-- The ingress router after the lookup of its peer among the valid peers. -/
def handle (s : Swarm k) (sid : Nat) (x : Session k) (message : Message) : Swarm k :=
  s.setSession sid { x with ingress :=
    match CapabilityServerImpl.handleMessage k (x.peer ∈ s.server.validPeers) message with
    | .done => .waiting
    | .kick reason => Session.afterHandling (.error reason)
    | .status v => .accepting v
    | .query id data => .querying id data
    | .reply message => Session.afterHandling (.ok (some message)) }

/-- The ingress router under the locks for a `Status`. -/
def accept (s : Swarm k) (sid : Nat) (x : Session k) (v : StatusMessage k.ForkId) : Swarm k :=
  match s.server.acceptStatus x.peer v with
  | .ok server =>
    { s.setSession sid { x with
        ingress := .waiting
        accepted := x.accepted || s.server.statusMessage.isSome } with
      server := server }
  | .error reason => s.setSession sid { x with ingress := Session.afterHandling (.error reason) }

/-- The ingress router looks up the channel of its peer. -/
def lookupSender (s : Swarm k) (sid : Nat) (x : Session k) : Swarm k :=
  match s.server.peerPipes.lookup x.peer with
  | some _ => s.setSession sid { x with ingress := .sending }
  | none => s.setSession sid { x with ingress := .panicked }

/-- **A step of the swarm.** -/
def step (s : Swarm k) : Event k → Option (Swarm k)
  | .ban id => some { s with nodeFilter := { s.nodeFilter with banList := insert id s.nodeFilter.banList } }
  | .setStatus status => some { s with server := { s.server with statusMessage := status } }
  | .incoming remoteId caps => if s.setup.isSome then none else some (s.incoming remoteId caps)
  | .addPeer remoteId checkPeer =>
    some { s with attempts := s.attempts ++ [⟨remoteId, checkPeer, .created, .held, .waiting⟩] }
  | .poll cid => s.attempts[cid]?.bind fun a =>
    if a.future = .created then
      some { s.setAttempt cid { a with future := .counted } with
        currentlyConnecting := fetchAdd s.currentlyConnecting }
    else none
  | .claim cid => s.attempts[cid]?.bind fun a =>
    if a.future = .counted ∧ s.setup = none then some (s.claim cid a) else none
  | .adopt cid caps => s.attempts[cid]?.bind fun a =>
    if a.future = .dialing ∧ s.setup = none then some (s.adopt cid a caps) else none
  | .giveUp cid => s.attempts[cid]?.bind fun a =>
    if a.future = .dialing ∧ s.setup = none then some (s.giveUp cid a) else none
  | .drop cid => s.attempts[cid]?.bind fun a =>
    if a.future = .created ∨ a.future = .dialing then some (s.finish cid a) else none
  | .reap cid => s.attempts[cid]?.bind fun a =>
    match a.reaper, a.trigger with
    | .waiting, .sent => some (s.setAttempt cid { a with reaper := .reaped })
    | .waiting, .dropped => if s.setup.isSome then none else some (s.reap cid a)
    | _, _ => none
  | .uncount cid => s.attempts[cid]?.bind fun a =>
    if a.reaper = .reaped then
      some { s.setAttempt cid { a with reaper := .done } with
        currentlyConnecting := fetchSub s.currentlyConnecting }
    else none
  | .proceed => s.setup.bind s.proceed
  | .task sid e => s.sessions[sid]?.bind fun x => (x.step e).map (s.setSession sid)
  | .handle sid => s.sessions[sid]?.bind fun x => match x.ingress with
    | .handling message => some (s.handle sid x message)
    | _ => none
  | .accept sid => s.sessions[sid]?.bind fun x => match x.ingress with
    | .accepting v => some (s.accept sid x v)
    | _ => none
  | .reply sid => s.sessions[sid]?.bind fun x => match x.ingress with
    | .replying _ => some (s.lookupSender sid x)
    | _ => none
  | .disconnect sid => s.sessions[sid]?.bind fun x => match x.egress with
    | .leaving _ => some { s.setSession sid { x with egress := .disconnecting } with
        calls := s.calls ++ [(x.peer, .disconnect)] }
    | _ => none
  | .teardown sid => s.sessions[sid]?.bind fun x =>
    if x.egress = .disconnecting then
      some { s.setSession sid { x with egress := .tornDown } with server := s.server.teardownPeer x.peer }
    else none
  | .release sid => s.sessions[sid]?.bind fun x =>
    if x.egress = .tornDown ∧ s.setup = none then
      some { s.setSession sid { x with egress := .released } with mapping := s.mapping.erase x.peer }
    else none

/-! ## What a step does -/

/-- The parts of `setup_peer_state`, each with what it requires. -/
inductive Proceeds (s : Swarm k) (u : Setup) : Swarm k → Prop
  | prepare {caps : List (CapabilityName × Nat)} {firstEvents : List OutboundEvent} (hu : u.stage = .called caps)
    (hf : s.server.firstEvents caps = some firstEvents) :
    Proceeds s u { s with setup := some { u with stage := .prepared firstEvents } }
  | register {firstEvents : List OutboundEvent} {server : CapabilityServerImpl k} (hu : u.stage = .prepared firstEvents)
    (hserver : s.server.setupPeer u.peer ⟨u.session, firstEvents⟩ = some server) :
    Proceeds s u { s with server := server, setup := some { u with stage := .registered } }
  | fail {firstEvents : List OutboundEvent} (hu : u.stage = .prepared firstEvents)
    (hserver : s.server.setupPeer u.peer ⟨u.session, firstEvents⟩ = none) : Proceeds s u { s with failed := true }
  | spawnIngress {x : Session k} (hu : u.stage = .registered) (hx : s.sessions[u.session]? = some x) :
    Proceeds s u
      { s.setSession u.session { x with ingress := .waiting } with setup := some { u with stage := .ingressSpawned } }
  | spawnEgress {x : Session k} (hu : u.stage = .ingressSpawned) (hx : s.sessions[u.session]? = some x)
    (hegress : x.egress = .unspawned) :
    Proceeds s u
      { s.setSession u.session { x with egress := .selecting } with setup := some { u with stage := .egressSpawned } }
  | spawnPinger {x : Session k} (hu : u.stage = .egressSpawned) (hx : s.sessions[u.session]? = some x) :
    Proceeds s u
      { s.setSession u.session { x with pinger := .looping } with setup := some { u with stage := .pingerSpawned } }
  | install (hu : u.stage = .pingerSpawned) : Proceeds s u (s.install u)

variable {s s' : Swarm k}

theorem proceeds_of_proceed {u : Setup} (h : s.proceed u = some s') : Proceeds s u s' := by
  unfold proceed at h
  split at h
  · rename_i hu
    obtain ⟨firstEvents, hf, rfl⟩ := Option.map_eq_some_iff.1 h
    exact .prepare hu hf
  · rename_i hu
    split at h <;> cases h
    · exact .register hu ‹_›
    · exact .fail hu ‹_›
  · rename_i hu
    obtain ⟨x, hx, rfl⟩ := Option.map_eq_some_iff.1 h
    exact .spawnIngress hu hx
  · rename_i hu
    obtain ⟨x, hx, h⟩ := Option.bind_eq_some_iff.1 h
    split at h <;> cases h
    exact .spawnEgress hu hx ‹_›
  · rename_i hu
    obtain ⟨x, hx, rfl⟩ := Option.map_eq_some_iff.1 h
    exact .spawnPinger hu hx
  · rename_i hu
    cases h
    exact .install hu

/-- The steps, each with what it requires. -/
inductive Steps (s : Swarm k) : Event k → Swarm k → Prop
  | ban (id : PeerId) :
    Steps s (.ban id) { s with nodeFilter := { s.nodeFilter with banList := insert id s.nodeFilter.banList } }
  | setStatus (status : Option (StatusData × k.ForkFilter)) :
    Steps s (.setStatus status) { s with server := { s.server with statusMessage := status } }
  | incoming (remoteId : PeerId) (caps : List (CapabilityName × Nat)) (hs : s.setup = none) :
    Steps s (.incoming remoteId caps) (s.incoming remoteId caps)
  | addPeer (remoteId : PeerId) (checkPeer : Bool) :
    Steps s (.addPeer remoteId checkPeer)
      { s with attempts := s.attempts ++ [⟨remoteId, checkPeer, .created, .held, .waiting⟩] }
  | poll {cid : Nat} {a : Attempt} (ha : s.attempts[cid]? = some a) (hf : a.future = .created) :
    Steps s (.poll cid) { s.setAttempt cid { a with future := .counted } with
      currentlyConnecting := fetchAdd s.currentlyConnecting }
  | claim {cid : Nat} {a : Attempt} (ha : s.attempts[cid]? = some a) (hf : a.future = .counted) (hs : s.setup = none) :
    Steps s (.claim cid) (s.claim cid a)
  | adopt {cid : Nat} {a : Attempt} (caps : List (CapabilityName × Nat)) (ha : s.attempts[cid]? = some a)
    (hf : a.future = .dialing) (hs : s.setup = none) : Steps s (.adopt cid caps) (s.adopt cid a caps)
  | giveUp {cid : Nat} {a : Attempt} (ha : s.attempts[cid]? = some a) (hf : a.future = .dialing) (hs : s.setup = none) :
    Steps s (.giveUp cid) (s.giveUp cid a)
  | drop {cid : Nat} {a : Attempt} (ha : s.attempts[cid]? = some a) (hf : a.future = .created ∨ a.future = .dialing) :
    Steps s (.drop cid) (s.finish cid a)
  | told {cid : Nat} {a : Attempt} (ha : s.attempts[cid]? = some a) (hr : a.reaper = .waiting)
    (ht : a.trigger = .sent) : Steps s (.reap cid) (s.setAttempt cid { a with reaper := .reaped })
  | reap {cid : Nat} {a : Attempt} (ha : s.attempts[cid]? = some a) (hr : a.reaper = .waiting)
    (ht : a.trigger = .dropped) (hs : s.setup = none) : Steps s (.reap cid) (s.reap cid a)
  | uncount {cid : Nat} {a : Attempt} (ha : s.attempts[cid]? = some a) (hr : a.reaper = .reaped) :
    Steps s (.uncount cid) { s.setAttempt cid { a with reaper := .done } with
      currentlyConnecting := fetchSub s.currentlyConnecting }
  | proceed {u : Setup} {s' : Swarm k} (hs : s.setup = some u) (h : s.proceed u = some s') : Steps s .proceed s'
  | task {sid : Nat} {x x' : Session k} {e : TaskEvent} (hx : s.sessions[sid]? = some x) (h : x.step e = some x') :
    Steps s (.task sid e) (s.setSession sid x')
  | handle {sid : Nat} {x : Session k} {message : Message} (hx : s.sessions[sid]? = some x)
    (hi : x.ingress = .handling message) : Steps s (.handle sid) (s.handle sid x message)
  | accept {sid : Nat} {x : Session k} {v : StatusMessage k.ForkId} (hx : s.sessions[sid]? = some x)
    (hi : x.ingress = .accepting v) : Steps s (.accept sid) (s.accept sid x v)
  | reply {sid : Nat} {x : Session k} {event : OutboundEvent} (hx : s.sessions[sid]? = some x)
    (hi : x.ingress = .replying event) : Steps s (.reply sid) (s.lookupSender sid x)
  | disconnect {sid : Nat} {x : Session k} {signal : DisconnectSignal} (hx : s.sessions[sid]? = some x)
    (he : x.egress = .leaving signal) : Steps s (.disconnect sid)
      { s.setSession sid { x with egress := .disconnecting } with calls := s.calls ++ [(x.peer, .disconnect)] }
  | teardown {sid : Nat} {x : Session k} (hx : s.sessions[sid]? = some x) (he : x.egress = .disconnecting) :
    Steps s (.teardown sid)
      { s.setSession sid { x with egress := .tornDown } with server := s.server.teardownPeer x.peer }
  | release {sid : Nat} {x : Session k} (hx : s.sessions[sid]? = some x) (he : x.egress = .tornDown)
    (hs : s.setup = none) : Steps s (.release sid)
      { s.setSession sid { x with egress := .released } with mapping := s.mapping.erase x.peer }

/-- **The steps, one by one.** -/
theorem steps_of_step {e : Event k} (h : s.step e = some s') : Steps s e s' := by
  cases e with
  | ban id =>
    cases h
    exact .ban id
  | setStatus status =>
    cases h
    exact .setStatus status
  | incoming remoteId caps =>
    simp only [step] at h
    split at h <;> cases h
    rename_i hs
    exact .incoming remoteId caps (by simpa using hs)
  | addPeer remoteId checkPeer =>
    cases h
    exact .addPeer remoteId checkPeer
  | poll cid =>
    obtain ⟨a, ha, h⟩ := Option.bind_eq_some_iff.1 h
    split at h <;> cases h
    exact .poll ha ‹_›
  | claim cid =>
    obtain ⟨a, ha, h⟩ := Option.bind_eq_some_iff.1 h
    split at h <;> cases h
    rename_i hf
    exact .claim ha hf.1 hf.2
  | adopt cid caps =>
    obtain ⟨a, ha, h⟩ := Option.bind_eq_some_iff.1 h
    split at h <;> cases h
    rename_i hf
    exact .adopt caps ha hf.1 hf.2
  | giveUp cid =>
    obtain ⟨a, ha, h⟩ := Option.bind_eq_some_iff.1 h
    split at h <;> cases h
    rename_i hf
    exact .giveUp ha hf.1 hf.2
  | drop cid =>
    obtain ⟨a, ha, h⟩ := Option.bind_eq_some_iff.1 h
    split at h <;> cases h
    exact .drop ha ‹_›
  | reap cid =>
    obtain ⟨a, ha, h⟩ := Option.bind_eq_some_iff.1 h
    split at h
    · rename_i hr ht
      cases h
      exact .told ha hr ht
    · rename_i hr ht
      split at h <;> cases h
      rename_i hs
      exact .reap ha hr ht (by simpa using hs)
    · cases h
  | uncount cid =>
    obtain ⟨a, ha, h⟩ := Option.bind_eq_some_iff.1 h
    split at h <;> cases h
    exact .uncount ha ‹_›
  | proceed =>
    obtain ⟨u, hs, h⟩ := Option.bind_eq_some_iff.1 h
    exact .proceed hs h
  | task sid e =>
    obtain ⟨x, hx, h⟩ := Option.bind_eq_some_iff.1 h
    obtain ⟨x', hx', rfl⟩ := Option.map_eq_some_iff.1 h
    exact .task hx hx'
  | handle sid =>
    obtain ⟨x, hx, h⟩ := Option.bind_eq_some_iff.1 h
    split at h <;> cases h
    exact .handle hx ‹_›
  | accept sid =>
    obtain ⟨x, hx, h⟩ := Option.bind_eq_some_iff.1 h
    split at h <;> cases h
    exact .accept hx ‹_›
  | reply sid =>
    obtain ⟨x, hx, h⟩ := Option.bind_eq_some_iff.1 h
    split at h <;> cases h
    exact .reply hx ‹_›
  | disconnect sid =>
    obtain ⟨x, hx, h⟩ := Option.bind_eq_some_iff.1 h
    split at h <;> cases h
    exact .disconnect hx ‹_›
  | teardown sid =>
    obtain ⟨x, hx, h⟩ := Option.bind_eq_some_iff.1 h
    split at h <;> cases h
    exact .teardown hx ‹_›
  | release sid =>
    obtain ⟨x, hx, h⟩ := Option.bind_eq_some_iff.1 h
    split at h <;> cases h
    rename_i he
    exact .release hx he.1 he.2

section Example

/-- A peer. -/
def samplePeer : PeerId := FixedBytes.ofNat 64 1

/-- The peer connects to a server with a status, as session 0. -/
def connectIncoming : List (Event genesisForks) :=
  [.setStatus (some genesisData), .incoming samplePeer [(capabilityName, 65)], .proceed, .proceed, .proceed, .proceed,
    .proceed, .proceed]

/-- Its stream ends, and the session is released. -/
def closeSession : List (Event genesisForks) :=
  [.task 0 (.receive .closed), .task 0 (.select .signal), .disconnect 0, .teardown 0, .release 0]

/-- An attempt connects to it, as session 1. -/
def connectOutgoing : List (Event genesisForks) :=
  [.addPeer samplePeer true, .poll 0, .claim 0, .adopt 0 [(capabilityName, 65)], .proceed, .proceed, .proceed, .proceed,
    .proceed, .proceed]

end Example

end Swarm

end EthereumSentry
