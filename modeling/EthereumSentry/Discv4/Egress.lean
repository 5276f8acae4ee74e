import EthereumSentry.Discv4.Ingress
import EthereumSentry.Lib.Inflight

/-!
# Pings in flight

The egress router, step by step, next to the ingress router and the timeouts of the pings (`Routers.step`). A ping is
registered under the hash of its datagram; the datagram is handed to the socket; when the socket has taken it, a timeout
is started. Every other task may take its steps in between. The pings in flight are requests in flight by their hashes
(`pings_step`).
-/

set_option autoImplicit false

namespace EthereumSentry

namespace Discv4

/-- Where the egress router is. -/
inductive Egress where
  /-- It waits for a request. -/
  | idle
  /-- It waits for the socket to take a datagram. The timeout of a ping is to be started then. -/
  | sending (addr : SocketAddr) (datagram : Bytes) (trigger : Option (H256 × NodeId))
  /-- It is about to start the timeout of a ping. -/
  | sent (hash : H256) (peer : NodeId)
  deriving DecidableEq

/-- The ping whose timeout is not started yet. -/
def Egress.ping : Egress → Option (H256 × NodeId)
  | idle => none
  | sending _ _ trigger => trigger
  | sent hash peer => some (hash, peer)

/-- The routers of a node. Callbacks are numbered by the pings that they were made for. -/
structure Routers where
  router : Router
  egress : Egress
  /-- The timeouts of pings that were sent, with their receivers. -/
  timers : List (H256 × NodeId)
  /-- The nodes that were asked for, by callbacks. -/
  asked : List NodeId
  /-- The node that a hash was last registered for. -/
  receiver : H256 → Option NodeId

namespace Routers

inductive Event where
  /-- The egress router takes a ping with a callback, of a lookup or the pinger. -/
  | ping (addr : SocketAddr) (peer : NodeId) (message : PingMessage)
  /-- The egress router takes another request. -/
  | request (addr : SocketAddr) (peer : NodeId) (message : EgressMessage)
  /-- The socket takes the datagram, or fails. -/
  | socket (sent : Bool)
  /-- The timeout of a ping is started. -/
  | spawn
  | timeout (hash : H256) (peer : NodeId)
  | receive (addr : SocketAddr) (datagram : Bytes)
  /-- The lookups wait for others, or the endpoint changes. -/
  | change (expectedPings : SocketAddr → Option (List (RequestId × Callback)))
      (inflightFindNodeRequests : NodeId → Option (List (RequestId × Callback))) (nodeEndpoint : Endpoint)

section

variable (c : Crates) (sk : c.SecretKey)

/-- The routers of a node that has just started. -/
def new (bootstrapNodes : List NodeRecord) (nodeEndpoint : Endpoint) : Routers where
  router := {
    connected := (Node.new c sk bootstrapNodes).connected
    nodeEndpoint := nodeEndpoint
    inflightPingRequests := fun _ => none
    expectedPings := fun _ => none
    inflightFindNodeRequests := fun _ => none
    egressRequests := []
    signals := [] }
  egress := .idle
  timers := []
  asked := []
  receiver := fun _ => none

/-- The egress router, until it hands a datagram to the socket. -/
def serve (s : Routers) (addr : SocketAddr) (peer : NodeId) (message : EgressMessage) (sender : Option Callback) :
    Routers :=
  if peer = Node.ownId c sk then s
  else
    let hash := message.hash c sk
    let datagram := message.datagram c sk
    if message.messageId = .ping then
      let cbs := s.router.inflightPingRequests hash
      let doSend := cbs.isNone
      let s := { s with router := { s.router with
        inflightPingRequests :=
          Function.update s.router.inflightPingRequests hash (some (cbs.getD [] ++ sender.toList)) } }
      if doSend then
        { s with
          egress := .sending addr datagram (some (hash, peer))
          receiver := Function.update s.receiver hash (some peer) }
      else s
    else { s with egress := .sending addr datagram none }

/-- The timeout of a ping. -/
def timeout (s : Routers) (hash : H256) (peer : NodeId) : Routers :=
  if (s.router.inflightPingRequests hash).isSome then
    { s with router := { s.router with
      inflightPingRequests := Function.update s.router.inflightPingRequests hash none
      connected := s.router.connected.remove c.keccak256 peer } }
  else s

def step (s : Routers) : Event → Option Routers
  | .ping addr peer message =>
    if s.egress = .idle then
      some ({ s with asked := s.asked ++ [peer] }.serve c sk addr peer (.ping message) (some s.asked.length))
    else none
  | .request addr peer message => if s.egress = .idle then some (s.serve c sk addr peer message none) else none
  | .socket sent =>
    match s.egress, sent with
    | .sending _ _ (some (hash, peer)), true => some { s with egress := .sent hash peer }
    | .sending _ _ none, true | .sending _ _ _, false => some { s with egress := .idle }
    | _, _ => none
  | .spawn =>
    match s.egress with
    | .sent hash peer => some { s with egress := .idle, timers := s.timers ++ [(hash, peer)] }
    | _ => none
  | .timeout hash peer =>
    if (hash, peer) ∈ s.timers then some ({ s with timers := s.timers.erase (hash, peer) }.timeout c hash peer)
    else none
  | .receive addr datagram =>
    some { s with router := Prog.after (Router.ingress c sk addr (datagram.take maxPacketSize)) s.router }
  | .change expectedPings inflightFindNodeRequests nodeEndpoint =>
    some { s with router := { s.router with
      expectedPings := expectedPings
      inflightFindNodeRequests := inflightFindNodeRequests
      nodeEndpoint := nodeEndpoint } }

/-- The signer and the echo of a pong that is handled. -/
def pongOf (addr : SocketAddr) (buf : Bytes) : Option (NodeId × H256) :=
  match openDatagram c buf with
  | .ok o =>
    if addr.ip.isIpv6 ∨ o.remoteId = Node.ownId c sk ∨ MessageId.fromU8 o.typ ≠ some .pong then none
    else (PongMessage.decode c.rlp o.data).toOption.map fun message => (o.remoteId, message.echo)
  | .error _ => none

end

end Routers

/-! ## Pongs -/

namespace Router

open Prog (after after_ok after_error after_bind)

/-- The callbacks that were told that their pings are answered. -/
def ponged (r : Router) : List Callback := r.signals.filterMap fun
  | .ponged cb => some cb
  | _ => none

variable {c : Crates} {sk : c.SecretKey} {addr : SocketAddr} {buf : Bytes} {r r' : Router}

/-- Nothing is done to the pings in flight. -/
def SamePings (r r' : Router) : Prop :=
  r'.inflightPingRequests = r.inflightPingRequests ∧ r'.ponged = r.ponged

/-- What a pong does to the pings in flight. -/
def AnswersPing (r : Router) (echo : H256) (r' : Router) : Prop :=
  r'.inflightPingRequests = Function.update r.inflightPingRequests echo none ∧
    r'.ponged = r.ponged ++ (r.inflightPingRequests echo).getD []

theorem samePings_signal (r : Router) {signals : List Signal} (h : ∀ cb, .ponged cb ∉ signals) :
    r.SamePings (r.signal signals) := by
  refine ⟨rfl, ?_⟩
  have hnil : (signals.filterMap fun | .ponged cb => some cb | _ => none) = ([] : List Callback) := by
    refine List.filterMap_eq_nil_iff.2 fun x hx => ?_
    cases x with
    | ponged cb => exact absurd hx (h cb)
    | pinged | neighbours => rfl
  rw [ponged, signal, List.filterMap_append, hnil, List.append_nil]
  rfl

theorem after_handlePing (remoteId : NodeId) (hash : H256) (data : Bytes) :
    r.SamePings (after (handlePing c addr remoteId hash data) r) := by
  refine after_decoded (P := r.SamePings) ⟨rfl, rfl⟩ fun pingData _ => ?_
  rw [after_bind (EStateM.run_modify _ _), after_bind (EStateM.run_modify _ _), after_bind (EStateM.run_get _)]
  split
  · rename_i cbs _
    have hnone : ∀ cb', .ponged cb' ∉ cbs.map fun cb => Signal.pinged cb.2 := by simp
    exact samePings_signal { r with connected := _ } hnone
  · exact ⟨rfl, rfl⟩

theorem after_handlePong {data : Bytes} {message : PongMessage} (hd : PongMessage.decode c.rlp data = .ok message) :
    r.AnswersPing message.echo (after (handlePong c data) r) := by
  rw [handlePong, hd, after_bind (Prog.run_ofExcept_ok _ message r), after_bind (EStateM.run_get r)]
  split
  · rename_i cbs h
    refine ⟨rfl, ?_⟩
    have hmap : (cbs.map Signal.ponged).filterMap (fun | .ponged cb => some cb | _ => none) = cbs := by
      rw [List.filterMap_map]
      exact List.filterMap_some
    rw [h, Option.getD_some]
    exact List.filterMap_append.trans (congrArg (r.ponged ++ ·) hmap)
  · rename_i h
    refine ⟨?_, by rw [h, Option.getD_none, List.append_nil]; rfl⟩
    rw [← h, Function.update_eq_self]
    rfl

theorem after_handleFindNode (remoteId : NodeId) (data : Bytes) :
    r.SamePings (after (handleFindNode c addr remoteId data) r) := by
  refine after_decoded (P := r.SamePings) ⟨rfl, rfl⟩ fun message _ => ?_
  rw [after_bind (EStateM.run_get r)]
  dsimp only
  split <;> exact ⟨rfl, rfl⟩

theorem after_handleNeighbours (remoteId : NodeId) (data : Bytes) :
    r.SamePings (after (handleNeighbours c remoteId data) r) := by
  rw [handleNeighbours, after_bind (EStateM.run_get r)]
  dsimp only
  split
  · exact ⟨rfl, rfl⟩
  · refine after_decoded (P := r.SamePings) ⟨rfl, rfl⟩ fun message _ => ?_
    have hnone : ∀ cb, .ponged cb ∉ (r.waiting remoteId).map (Signal.neighbours · message) := by simp
    exact samePings_signal { r with connected := _ } hnone

/-- **What a datagram does to the pings in flight.** -/
theorem after_ingress_pings (c : Crates) (sk : c.SecretKey) (addr : SocketAddr) (buf : Bytes) (r : Router) :
    match Routers.pongOf c sk addr buf with
    | none => r.SamePings (after (ingress c sk addr buf) r)
    | some (_, echo) => r.AnswersPing echo (after (ingress c sk addr buf) r) := by
  unfold Routers.pongOf
  by_cases hip : addr.ip.isIpv6
  · rw [ingress, if_pos hip]
    cases openDatagram c buf with
    | error e => exact ⟨rfl, rfl⟩
    | ok o =>
      simp only [hip, true_or, if_true]
      exact ⟨rfl, rfl⟩
  rw [after_ingress (Bool.not_eq_true _ ▸ hip)]
  cases openDatagram c buf with
  | error e => exact ⟨rfl, rfl⟩
  | ok o =>
    by_cases hid : o.remoteId = Node.ownId c sk
    · simp only [hid, true_or, or_true, if_true]
      exact ⟨rfl, rfl⟩
    simp only [hip, hid, false_or, if_false, handle, Bool.false_eq_true]
    cases MessageId.fromU8 o.typ with
    | none => exact ⟨rfl, rfl⟩
    | some id =>
      cases id with
      | ping => exact after_handlePing _ _ _
      | pong =>
        cases hd : PongMessage.decode c.rlp o.data with
        | error e =>
          simp only [ne_eq, not_true_eq_false, if_false, Except.toOption, Option.map_none]
          rw [handlePong, hd, after_decoder rfl]
          exact ⟨rfl, rfl⟩
        | ok message => exact after_handlePong hd
      | findNode => exact after_handleFindNode _ _
      | neighbours => exact after_handleNeighbours _ _

theorem answersPing_of_pongOf {signer : NodeId} {echo : H256} (h : Routers.pongOf c sk addr buf = some (signer, echo))
    (r : Router) : r.AnswersPing echo (after (ingress c sk addr buf) r) := by
  have hpings := after_ingress_pings c sk addr buf r
  rwa [h] at hpings

end Router

/-! ## Requests in flight -/

namespace Routers

variable {c : Crates} {sk : c.SecretKey} {s s' : Routers}

/-- The pings in flight. -/
def pings (s : Routers) : Inflight.State H256 NodeId where
  waiting := s.router.inflightPingRequests
  busy := s.egress.ping
  timers := s.timers
  asked := s.asked
  fired := s.router.ponged
  receiver := s.receiver

variable (c sk) in
/-- What a request does to the pings in flight. -/
def askAct (peer : NodeId) (message : EgressMessage) (callback : Bool) : Inflight.Act H256 NodeId :=
  if peer ≠ Node.ownId c sk ∧ message.messageId = .ping then .ask (message.hash c sk) peer callback
  else if callback then .drop peer else .skip

variable (c sk) in
/-- What a step does to the pings in flight. -/
def act : Event → Inflight.Act H256 NodeId
  | .ping _ peer message => askAct c sk peer (.ping message) true
  | .request _ peer message => askAct c sk peer message false
  | .socket sent => if sent then .skip else .fail
  | .spawn => .arm
  | .timeout hash peer => .expire hash peer
  | .receive addr datagram =>
    match pongOf c sk addr (datagram.take maxPacketSize) with
    | some (_, echo) => .answer echo
    | none => .skip
  | .change .. => .skip

/-- A request that is taken when the egress router waits for one. -/
theorem pings_serve (hidle : s.egress = .idle) (addr : SocketAddr) (peer : NodeId) (message : EgressMessage) :
    s.pings.step (askAct c sk peer message false) = some (s.serve c sk addr peer message none).pings := by
  unfold askAct serve
  by_cases hown : peer = Node.ownId c sk
  · simp [hown, Inflight.State.step]
  by_cases hping : message.messageId = .ping
  · cases hw : s.router.inflightPingRequests (message.hash c sk) <;>
      simp [hown, hping, hw, hidle, Inflight.State.step, Inflight.State.register, pings, Egress.ping, Router.ponged]
  · simp [hown, hping, hidle, Inflight.State.step, pings, Egress.ping]

theorem pings_serve_callback (hidle : s.egress = .idle) (addr : SocketAddr) (peer : NodeId) (message : PingMessage) :
    s.pings.step (askAct c sk peer (.ping message) true) = some ({ s with asked := s.asked ++ [peer] }.serve c sk addr
      peer (.ping message) (some s.asked.length)).pings := by
  unfold askAct serve
  have hping : (EgressMessage.ping message).messageId = .ping := rfl
  by_cases hown : peer = Node.ownId c sk
  · simp [hown, Inflight.State.step, pings]
  · cases hw : s.router.inflightPingRequests ((EgressMessage.ping message).hash c sk) <;>
      simp [hown, hping, hw, hidle, Inflight.State.step, Inflight.State.register, pings, Egress.ping, Router.ponged]

/-- **The pings in flight are requests in flight.** -/
theorem pings_step {e : Event} (h : s.step c sk e = some s') : s.pings.step (act c sk e) = some s'.pings := by
  cases e with
  | ping addr peer message =>
    obtain ⟨hidle, h⟩ := Option.ite_none_right_eq_some.1 h
    cases h
    exact pings_serve_callback hidle addr peer message
  | request addr peer message =>
    obtain ⟨hidle, h⟩ := Option.ite_none_right_eq_some.1 h
    cases h
    exact pings_serve hidle addr peer message
  | socket sent =>
    simp only [step] at h
    split at h
    · rename_i hsending
      cases h
      simp [act, Inflight.State.step, pings, hsending, Egress.ping]
    · rename_i hsending
      cases h
      simp [act, Inflight.State.step, pings, hsending, Egress.ping]
    · rename_i hsending
      cases h
      simp [act, Inflight.State.step, pings, Egress.ping]
    · cases h
  | spawn =>
    simp only [step] at h
    split at h
    · rename_i hsent
      cases h
      simp [act, Inflight.State.step, pings, hsent, Egress.ping]
    · cases h
  | timeout hash peer =>
    obtain ⟨-, h⟩ := Option.ite_none_right_eq_some.1 h
    cases h
    simp only [act, Inflight.State.step, pings, timeout]
    split
    · rfl
    · rename_i hnone
      rw [Option.not_isSome_iff_eq_none] at hnone
      rw [← hnone, Function.update_eq_self]
  | receive addr datagram =>
    cases h
    unfold act
    cases hp : pongOf c sk addr (datagram.take maxPacketSize) with
    | none =>
      have hpings := Router.after_ingress_pings c sk addr (datagram.take maxPacketSize) s.router
      simp only [hp] at hpings ⊢
      simp only [Inflight.State.step, pings, hpings.1, hpings.2]
    | some p =>
      have hpings := Router.answersPing_of_pongOf hp s.router
      simp only [hp, Inflight.State.step, pings, hpings.1, hpings.2]
  | change =>
    cases h
    rfl

end Routers

end Discv4

end EthereumSentry
