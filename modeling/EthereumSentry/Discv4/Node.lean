import EthereumSentry.Discv4.Message
import EthereumSentry.Lib.Runs

/-!
# The routers of node discovery

`src/discv4/src/node.rs`: the ingress router handles one datagram after the other, the egress router sends what is
queued, and a ping that was sent is given up after a while. `Node.step` is one step of these, in any order, next to the
lookups and the pinger, which ask for pings and queries. A node keeps the history of what it sent and received.
-/

set_option autoImplicit false

namespace EthereumSentry

namespace Discv4

structure SocketAddr where
  ip : IpAddr
  port : UInt16
  deriving DecidableEq

/-- What a node sent or received. -/
inductive Entry where
  | sent (addr : SocketAddr) (peer : NodeId) (message : EgressMessage)
  | received (addr : SocketAddr) (buf : Bytes)
  deriving DecidableEq

/-- The state of a node that its routers share, and its history, the last entry first. The queue of requests holds those
that wait for the channel as well. -/
structure Node where
  connected : Table
  egressRequests : List (SocketAddr × NodeId × EgressMessage)
  /-- The hashes of the pings that were not answered yet. -/
  inflightPingRequests : List H256
  /-- The pings that time out, with their receivers. -/
  pingTimeouts : List (H256 × NodeId)
  /-- The queries that wait for neighbours, by the node that is asked. -/
  inflightFindNodeRequests : List NodeId
  history : List Entry

inductive Event where
  /-- A datagram arrives. -/
  | receive (addr : SocketAddr) (datagram : Bytes)
  /-- The next request is served; `sent` is whether the socket takes the datagram. -/
  | serve (sent : Bool)
  /-- A ping times out. -/
  | timeout (i : Nat)
  /-- A lookup, or the pinger, asks for a ping. -/
  | ping (addr : SocketAddr) (peer : NodeId) (message : PingMessage)
  /-- A lookup asks for a query. -/
  | findNode (addr : SocketAddr) (peer : NodeId) (message : FindNodeMessage)
  /-- A lookup starts to wait for neighbours, or no longer waits. -/
  | awaitNeighbours (peer : NodeId)
  | endNeighbours (peer : NodeId)

namespace Node

section

variable (c : Crates) (sk : c.SecretKey)

/-- The id of the node. -/
def ownId : NodeId := pk2id c (c.fromSecretKey sk)

/-- `Node::new`, as far as the routers see it. -/
def new (bootstrapNodes : List NodeRecord) : Node where
  connected := bootstrapNodes.foldl (·.addVerified c.keccak256) (Table.new c.keccak256 (ownId c sk))
  egressRequests := []
  inflightPingRequests := []
  pingTimeouts := []
  inflightFindNodeRequests := []
  history := []

/-- Queue a request. -/
def request (n : Node) (addr : SocketAddr) (peer : NodeId) (message : EgressMessage) : Node :=
  { n with egressRequests := n.egressRequests ++ [(addr, peer, message)] }

/-- The ingress router handles a message by its type. -/
def handle (n : Node) (addr : SocketAddr) (o : Opened) : Except IngressError Node :=
  match MessageId.fromU8 o.typ with
  | some .ping => do
    let pingData ← (PingMessage.decode c.rlp o.data).mapError .decoder
    let n := { n with connected := n.connected.addVerified c.keccak256 {
      address := pingData.fromEndpoint.address
      udpPort := pingData.fromEndpoint.udpPort
      tcpPort := pingData.fromEndpoint.udpPort
      id := o.remoteId } }
    return n.request addr o.remoteId (.pong ⟨pingData.fromEndpoint, o.hash, pingData.expire⟩)
  | some .pong => do
    let message ← (PongMessage.decode c.rlp o.data).mapError .decoder
    return { n with inflightPingRequests := n.inflightPingRequests.erase message.echo }
  | some .findNode => do
    let message ← (FindNodeMessage.decode c.rlp o.data).mapError .decoder
    let neighbours :=
      if (n.connected.get c.keccak256 o.remoteId).isSome then n.connected.neighbours c.keccak256 o.remoteId else none
    match neighbours with
    | some nodes => return n.request addr o.remoteId (.neighbours ⟨nodes, message.expire⟩)
    | none => return n
  | some .neighbours =>
    if o.remoteId ∈ n.inflightFindNodeRequests then do
      let message ← (NeighboursMessage.decode c.rlp o.data).mapError .decoder
      return { n with connected := message.nodes.foldl (·.addSeen c.keccak256) n.connected }
    else return n
  | none => .error (.invalidMessageType o.typ)

/-- The ingress router. The buffer cuts a datagram off. -/
def receive (n : Node) (addr : SocketAddr) (buf : Bytes) : Except IngressError Node :=
  if addr.ip.isIpv6 then .error .ipv6Unsupported
  else do
    let o ← openDatagram c buf
    if o.remoteId = ownId c sk then return n else n.handle c addr o

/-- The egress router serves a request. A ping that is in flight is not sent again. -/
def serve (n : Node) (addr : SocketAddr) (peer : NodeId) (message : EgressMessage) (sent : Bool) : Node :=
  if peer = ownId c sk then n
  else
    let hash := message.hash c sk
    if message.messageId = .ping then
      if hash ∈ n.inflightPingRequests then n
      else
        let n := { n with inflightPingRequests := hash :: n.inflightPingRequests }
        if sent then
          { n with pingTimeouts := n.pingTimeouts ++ [(hash, peer)], history := .sent addr peer message :: n.history }
        else n
    else if sent then { n with history := .sent addr peer message :: n.history }
    else n

/-- A ping that is still in flight has timed out. -/
def timeout (n : Node) (hash : H256) (peer : NodeId) : Node :=
  if hash ∈ n.inflightPingRequests then
    { n with
      inflightPingRequests := n.inflightPingRequests.erase hash
      connected := n.connected.remove c.keccak256 peer }
  else n

/-- One step of the node. -/
def step (n : Node) : Event → Option Node
  | .receive addr datagram =>
    let buf := datagram.take maxPacketSize
    let n := { n with history := .received addr buf :: n.history }
    match n.receive c sk addr buf with
    | .ok n' => some n'
    | .error _ => some n
  | .serve sent =>
    match n.egressRequests with
    | [] => none
    | (addr, peer, message) :: rest => some ({ n with egressRequests := rest }.serve c sk addr peer message sent)
  | .timeout i =>
    match n.pingTimeouts[i]? with
    | none => none
    | some (hash, peer) => some ({ n with pingTimeouts := n.pingTimeouts.eraseIdx i }.timeout c hash peer)
  | .ping addr peer message => some (n.request addr peer (.ping message))
  | .findNode addr peer message => some (n.request addr peer (.findNode message))
  | .awaitNeighbours peer => some { n with inflightFindNodeRequests := peer :: n.inflightFindNodeRequests }
  | .endNeighbours peer => some { n with inflightFindNodeRequests := n.inflightFindNodeRequests.erase peer }

/-- A FindNode arrives, from a node that is found in the table. -/
structure Asks (n : Node) (addr : SocketAddr) (buf : Bytes) (id : NodeId) (message : FindNodeMessage) : Prop where
  ipv4 : addr.ip.isIpv6 = false
  opened : ∃ o, openDatagram c buf = .ok o ∧ o.remoteId = id ∧ MessageId.fromU8 o.typ = some .findNode ∧
    FindNodeMessage.decode c.rlp o.data = .ok message
  foreign : id ≠ ownId c sk
  found : (n.connected.get c.keccak256 id).isSome

/-- What the ingress router does with a message. -/
inductive Handled (n : Node) (addr : SocketAddr) (o : Opened) : Node → Prop
  | ping (pingData : PingMessage) (htyp : MessageId.fromU8 o.typ = some .ping)
      (hd : PingMessage.decode c.rlp o.data = .ok pingData) :
      Handled n addr o ({ n with
        connected := n.connected.addVerified c.keccak256 ⟨pingData.fromEndpoint.address, pingData.fromEndpoint.udpPort,
          pingData.fromEndpoint.udpPort, o.remoteId⟩ }.request addr o.remoteId
            (.pong ⟨pingData.fromEndpoint, o.hash, pingData.expire⟩))
  | pong (echo : H256) :
      Handled n addr o { n with inflightPingRequests := n.inflightPingRequests.erase echo }
  | findNode (message : FindNodeMessage) (nodes : List NodeRecord) (htyp : MessageId.fromU8 o.typ = some .findNode)
      (hd : FindNodeMessage.decode c.rlp o.data = .ok message)
      (hfound : (n.connected.get c.keccak256 o.remoteId).isSome)
      (hn : n.connected.neighbours c.keccak256 o.remoteId = some nodes) :
      Handled n addr o (n.request addr o.remoteId (.neighbours ⟨nodes, message.expire⟩))
  | neighbours (message : NeighboursMessage) (htyp : MessageId.fromU8 o.typ = some .neighbours)
      (hd : NeighboursMessage.decode c.rlp o.data = .ok message) :
      Handled n addr o { n with connected := message.nodes.foldl (·.addSeen c.keccak256) n.connected }
  | ignored : Handled n addr o n

variable {c sk} {n n' : Node} {addr : SocketAddr} {o : Opened} {buf : Bytes}

/-- Who asks depends on the table alone. -/
theorem Asks.congr {id : NodeId} {message : FindNodeMessage} (h : n.Asks c sk addr buf id message)
    (hc : n'.connected = n.connected) : n'.Asks c sk addr buf id message :=
  ⟨h.ipv4, h.opened, h.foreign, hc ▸ h.found⟩

/-- Nothing but an error comes before the result of a decoder. -/
theorem mapError_bind_eq_ok {ε ε' α β : Type} {x : Except ε α} {f : ε → ε'} {g : α → Except ε' β} {b : β}
    (h : (x.mapError f >>= g) = .ok b) : ∃ a, x = .ok a ∧ g a = .ok b := by
  cases x with
  | error e => cases h
  | ok a => exact ⟨a, rfl, h⟩

theorem handled_of_handle (h : n.handle c addr o = .ok n') : Handled c n addr o n' := by
  unfold handle at h
  split at h
  · rename_i htyp
    obtain ⟨pingData, hd, h⟩ := mapError_bind_eq_ok h
    cases h
    exact .ping pingData htyp hd
  · obtain ⟨message, -, h⟩ := mapError_bind_eq_ok h
    cases h
    exact .pong message.echo
  · rename_i htyp
    obtain ⟨message, hd, h⟩ := mapError_bind_eq_ok h
    simp only at h
    split at h
    · rename_i nodes hn
      cases h
      split at hn
      · rename_i hfound
        exact .findNode message nodes htyp hd hfound hn
      · cases hn
    · cases h
      exact .ignored
  · rename_i htyp
    split at h
    · obtain ⟨message, hd, h⟩ := mapError_bind_eq_ok h
      cases h
      exact .neighbours message htyp hd
    · cases h
      exact .ignored
  · cases h

/-- A datagram changes nothing, or it is opened and handled. -/
theorem receive_cases (h : n.receive c sk addr buf = .ok n') : n' = n ∨
    ∃ o, addr.ip.isIpv6 = false ∧ openDatagram c buf = .ok o ∧ o.remoteId ≠ ownId c sk ∧ Handled c n addr o n' := by
  unfold receive at h
  split at h
  · cases h
  · rename_i hip
    cases ho : openDatagram c buf with
    | error e =>
      rw [ho] at h
      cases h
    | ok o =>
      simp only [ho, bind, Except.bind] at h
      split at h
      · cases h
        exact .inl rfl
      · rename_i hid
        exact .inr ⟨o, by simpa using hip, rfl, hid, handled_of_handle h⟩

/-- **A query is answered** with the neighbours of the node that asks. -/
theorem receive_of_asks {id : NodeId} {message : FindNodeMessage} (h : n.Asks c sk addr buf id message) :
    ∃ nodes, n.connected.neighbours c.keccak256 id = some nodes ∧
      n.receive c sk addr buf = .ok (n.request addr id (.neighbours ⟨nodes, message.expire⟩)) := by
  obtain ⟨hip, ⟨o, ho, rfl, htyp, hd⟩, hid, hfound⟩ := h
  obtain ⟨i, hn, -⟩ := Table.neighbours_of_get hfound
  refine ⟨_, hn, ?_⟩
  simp only [receive, hip, ho, bind, Except.bind, if_neg hid, handle, htyp, hd, Except.mapError, hfound, hn,
    Bool.false_eq_true, if_false, if_true]
  rfl

theorem step_of_asks {datagram : Bytes} {id : NodeId} {message : FindNodeMessage}
    (h : n.Asks c sk addr (datagram.take maxPacketSize) id message) :
    ∃ nodes, n.step c sk (.receive addr datagram) =
      some ({ n with history := .received addr (datagram.take maxPacketSize) :: n.history }.request addr id
        (.neighbours ⟨nodes, message.expire⟩)) := by
  have h' : Asks c sk { n with history := .received addr (datagram.take maxPacketSize) :: n.history } addr
      (datagram.take maxPacketSize) id message := h.congr rfl
  obtain ⟨nodes, -, hr⟩ := receive_of_asks h'
  exact ⟨nodes, by simp only [step, hr]⟩

/-- A request that a datagram leads to answers a ping, or a query of a node that is found. -/
theorem mem_requests_of_receive (h : n.receive c sk addr buf = .ok n')
    {r : SocketAddr × NodeId × EgressMessage} (hr : r ∈ n'.egressRequests) :
    r ∈ n.egressRequests ∨ (∃ id m, r = (addr, id, .pong m)) ∨
      ∃ id message nodes, n.Asks c sk addr buf id message ∧ n.connected.neighbours c.keccak256 id = some nodes ∧
        r = (addr, id, .neighbours ⟨nodes, message.expire⟩) := by
  rcases receive_cases h with rfl | ⟨o, hip, ho, hid, hh⟩
  · exact .inl hr
  · cases hh with
    | ping pingData =>
      simp only [request, List.mem_append, List.mem_singleton] at hr
      exact hr.imp_right fun hr => .inl ⟨_, _, hr⟩
    | findNode message nodes htyp hd hfound hn =>
      simp only [request, List.mem_append, List.mem_singleton] at hr
      exact hr.imp_right fun hr => .inr ⟨_, message, nodes, ⟨hip, ⟨o, ho, rfl, htyp, hd⟩, hid, hfound⟩, hn, hr⟩
    | pong | neighbours | ignored => exact .inl hr

/-! ## Tables in runs -/

variable (c) in
/-- A ping of the node was received, or a list of neighbours that has the node. -/
inductive Introduced (history : List Entry) (id : NodeId) : Prop
  | ping (addr : SocketAddr) (buf : Bytes) (o : Opened) (hr : .received addr buf ∈ history)
      (ho : openDatagram c buf = .ok o) (htyp : MessageId.fromU8 o.typ = some .ping) (hid : o.remoteId = id)
  | neighbours (addr : SocketAddr) (buf : Bytes) (o : Opened) (message : NeighboursMessage)
      (hr : .received addr buf ∈ history) (ho : openDatagram c buf = .ok o)
      (htyp : MessageId.fromU8 o.typ = some .neighbours) (hd : NeighboursMessage.decode c.rlp o.data = .ok message)
      (hid : id ∈ KBucket.ids message.nodes)

theorem Introduced.mono {h h' : List Entry} {id : NodeId} (hi : Introduced c h id) (hs : h ⊆ h') :
    Introduced c h' id := by
  cases hi with
  | ping addr buf o hr ho htyp hid => exact .ping addr buf o (hs hr) ho htyp hid
  | neighbours addr buf o message hr ho htyp hd hid => exact .neighbours addr buf o message (hs hr) ho htyp hd hid

theorem history_of_receive (h : n.receive c sk addr buf = .ok n') : n'.history = n.history := by
  rcases receive_cases h with rfl | ⟨o, -, -, -, hh⟩
  · rfl
  · cases hh <;> rfl

/-- What a datagram does to the table: introduced nodes are added. -/
theorem connected_of_receive {Q : Table → Prop} {history : List Entry} (hbuf : .received addr buf ∈ history)
    (hv : ∀ t node, Introduced c history node.id → Q t → Q (t.addVerified c.keccak256 node))
    (hs : ∀ t node, Introduced c history node.id → Q t → Q (t.addSeen c.keccak256 node))
    (hn : Q n.connected) (h : n.receive c sk addr buf = .ok n') : Q n'.connected := by
  rcases receive_cases h with rfl | ⟨o, -, ho, -, hh⟩
  · exact hn
  · cases hh with
    | ping pingData htyp => exact hv _ _ (.ping addr buf o hbuf ho htyp rfl) hn
    | neighbours message htyp hd =>
      have hadd : ∀ (nodes : List NodeRecord) (t : Table), nodes ⊆ message.nodes → Q t →
          Q (nodes.foldl (·.addSeen c.keccak256) t) := by
        intro nodes
        induction nodes with
        | nil => exact fun t _ ht => ht
        | cons node nodes ih =>
          intro t hsub ht
          have hmem := List.mem_map_of_mem (f := NodeRecord.id) (hsub List.mem_cons_self)
          exact ih _ (List.subset_of_cons_subset hsub)
            (hs t node (.neighbours addr buf o message hbuf ho htyp hd hmem) ht)
      exact hadd _ _ (List.Subset.refl _) hn
    | pong | findNode | ignored => exact hn

variable (c sk) in
/-- Serving a request leaves the table and the queue alone. -/
theorem serve_cases (n : Node) (addr : SocketAddr) (peer : NodeId) (message : EgressMessage) (sent : Bool) :
    (n.serve c sk addr peer message sent).connected = n.connected ∧
      (n.serve c sk addr peer message sent).egressRequests = n.egressRequests ∧
      ((n.serve c sk addr peer message sent).history = n.history ∨
        (n.serve c sk addr peer message sent).history = .sent addr peer message :: n.history) := by
  unfold serve
  by_cases hown : peer = ownId c sk
  · simp [hown]
  · by_cases hping : message.messageId = .ping
    · by_cases hflight : message.hash c sk ∈ n.inflightPingRequests
      · simp [hown, hping, hflight]
      · cases sent <;> simp [hown, hping, hflight]
    · cases sent <;> simp [hown, hping]

theorem timeout_cases (n : Node) (hash : H256) (peer : NodeId) :
    (n.timeout c hash peer).egressRequests = n.egressRequests ∧ (n.timeout c hash peer).history = n.history ∧
      ((n.timeout c hash peer).connected = n.connected ∨
        (n.timeout c hash peer).connected = n.connected.remove c.keccak256 peer) := by
  unfold timeout
  split <;> simp

variable (c sk) in
/-- What a step does to the table, the queue and the history. -/
inductive Moves (n : Node) : Event → Node → Prop
  | received (addr : SocketAddr) (datagram : Bytes) (n' : Node)
      (h : { n with history := .received addr (datagram.take maxPacketSize) :: n.history }.receive c sk addr
        (datagram.take maxPacketSize) = .ok n') : Moves n (.receive addr datagram) n'
  | rejected (addr : SocketAddr) (datagram : Bytes) (error : IngressError)
      (h : { n with history := .received addr (datagram.take maxPacketSize) :: n.history }.receive c sk addr
        (datagram.take maxPacketSize) = .error error) :
      Moves n (.receive addr datagram) { n with history := .received addr (datagram.take maxPacketSize) :: n.history }
  /-- A request is served, and maybe sent. -/
  | served (sent : Bool) (n' : Node) (addr : SocketAddr) (peer : NodeId) (message : EgressMessage)
      (hc : n'.connected = n.connected) (hq : n.egressRequests = (addr, peer, message) :: n'.egressRequests)
      (hh : n'.history = n.history ∨ n'.history = .sent addr peer message :: n.history) : Moves n (.serve sent) n'
  /-- A ping or a query is asked for. -/
  | asked (e : Event) (addr : SocketAddr) (peer : NodeId) (message : EgressMessage)
      (he : ∀ a d, e ≠ .receive a d) (hm : message.messageId = .ping ∨ message.messageId = .findNode) :
      Moves n e (n.request addr peer message)
  /-- A ping times out, or a lookup starts or stops to wait. -/
  | kept (e : Event) (n' : Node) (he : ∀ a d, e ≠ .receive a d)
      (hc : n'.connected = n.connected ∨ ∃ peer, n'.connected = n.connected.remove c.keccak256 peer)
      (hq : n'.egressRequests = n.egressRequests) (hh : n'.history = n.history) : Moves n e n'

theorem step_moves {e : Event} (h : n.step c sk e = some n') : Moves c sk n e n' := by
  cases e with
  | receive addr datagram =>
    cases hr : Node.receive c sk { n with history := .received addr (datagram.take maxPacketSize) :: n.history } addr
        (datagram.take maxPacketSize) with
    | error e =>
      simp only [step, hr, Option.some.injEq] at h
      exact h ▸ .rejected addr datagram e hr
    | ok n₁ =>
      simp only [step, hr, Option.some.injEq] at h
      exact h ▸ .received addr datagram n₁ hr
  | serve sent =>
    cases hq : n.egressRequests with
    | nil => simp [step, hq] at h
    | cons r rest =>
      obtain ⟨addr, peer, message⟩ := r
      simp only [step, hq, Option.some.injEq] at h
      obtain ⟨h₁, h₂, h₃⟩ := serve_cases c sk { n with egressRequests := rest } addr peer message sent
      rw [h] at h₁ h₂ h₃
      exact .served sent n' addr peer message h₁ (by rw [hq, h₂]) h₃
  | timeout i =>
    cases ht : n.pingTimeouts[i]? with
    | none => simp [step, ht] at h
    | some r =>
      obtain ⟨hash, peer⟩ := r
      simp only [step, ht, Option.some.injEq] at h
      obtain ⟨h₁, h₂, h₃⟩ := timeout_cases (c := c) { n with pingTimeouts := n.pingTimeouts.eraseIdx i } hash peer
      rw [h] at h₁ h₂ h₃
      exact .kept _ n' (by simp) (h₃.imp_right fun h => ⟨peer, h⟩) h₁ h₂
  | ping addr peer message =>
    cases h
    exact .asked _ addr peer (.ping message) (by simp) (.inl rfl)
  | findNode addr peer message =>
    cases h
    exact .asked _ addr peer (.findNode message) (by simp) (.inr rfl)
  | awaitNeighbours peer | endNeighbours peer =>
    cases h
    exact .kept _ _ (by simp) (.inl rfl) rfl rfl

/-- A step adds at most one entry to the history. -/
theorem history_of_step {e : Event} (h : n.step c sk e = some n') :
    n'.history = n.history ∨ ∃ entry, n'.history = entry :: n.history := by
  cases step_moves h with
  | received _ _ _ hr => exact .inr ⟨_, history_of_receive hr⟩
  | rejected => exact .inr ⟨_, rfl⟩
  | served _ _ _ _ _ _ _ hh => exact hh.imp_right fun hh => ⟨_, hh⟩
  | asked => exact .inl rfl
  | kept _ _ _ _ _ hh => exact .inl hh

theorem history_subset {e : Event} (h : n.step c sk e = some n') : n.history ⊆ n'.history := by
  rcases history_of_step h with hh | ⟨entry, hh⟩
  · rw [hh]
    exact List.Subset.refl _
  · rw [hh]
    exact List.subset_cons_self _ _

/-- **What a step does to the table**: introduced nodes are added, others are removed. -/
theorem step_connected {Q : Table → Prop} {e : Event} (h : n.step c sk e = some n')
    (hv : ∀ t node, Introduced c n'.history node.id → Q t → Q (t.addVerified c.keccak256 node))
    (hs : ∀ t node, Introduced c n'.history node.id → Q t → Q (t.addSeen c.keccak256 node))
    (hr : ∀ t peer, Q t → Q (t.remove c.keccak256 peer)) (hn : Q n.connected) : Q n'.connected := by
  cases step_moves h with
  | received addr datagram _ hreceive =>
    rw [history_of_receive hreceive] at hv hs
    exact connected_of_receive (n := { n with history := .received addr (datagram.take maxPacketSize) :: n.history })
      List.mem_cons_self hv hs hn hreceive
  | rejected => exact hn
  | served _ _ _ _ _ hc => exact hc ▸ hn
  | asked => exact hn
  | kept _ _ _ hc =>
    rcases hc with hc | ⟨peer, hc⟩
    · exact hc ▸ hn
    · exact hc ▸ hr _ peer hn

/-- **What a step queues**: neighbours, where a query is answered. -/
theorem mem_requests_of_step {e : Event} {id : NodeId} {m : NeighboursMessage} (h : n.step c sk e = some n')
    (hm : (addr, id, .neighbours m) ∈ n'.egressRequests) : (addr, id, .neighbours m) ∈ n.egressRequests ∨
      ∃ datagram message nodes, e = .receive addr datagram ∧
        n.Asks c sk addr (datagram.take maxPacketSize) id message ∧
        n.connected.neighbours c.keccak256 id = some nodes ∧ m = ⟨nodes, message.expire⟩ := by
  cases step_moves h with
  | received a datagram _ hr =>
    rcases mem_requests_of_receive hr hm with hm | ⟨_, _, hm⟩ | ⟨id', message, nodes, hasks, hn, hm⟩
    · exact .inl hm
    · cases hm
    · cases hm
      exact .inr ⟨datagram, message, nodes, rfl, hasks.congr rfl, hn, rfl⟩
  | rejected => exact .inl hm
  | served _ _ _ _ _ _ hr => exact .inl (hr ▸ List.mem_cons_of_mem _ hm)
  | asked _ a peer message _ hmessage =>
    rcases List.mem_append.1 hm with hm | hm
    · exact .inl hm
    · cases List.mem_singleton.1 hm
      rcases hmessage with h | h <;> cases h
  | kept _ _ _ _ hr => exact .inl (hr ▸ hm)

/-- A datagram of another node that fits the buffer is handled. -/
theorem step_datagram (hc : c.SecpLaws) {sk' : c.SecretKey} {m : EgressMessage} (hip : addr.ip.isIpv6 = false)
    (hid : ownId c sk' ≠ ownId c sk) (hlen : (m.datagram c sk').length ≤ maxPacketSize) :
    n.step c sk (.receive addr (m.datagram c sk')) =
      let n := { n with history := .received addr (m.datagram c sk') :: n.history }
      some ((n.handle c addr ⟨ownId c sk', m.hash c sk', m.messageId.toU8, m.encode c.rlp⟩).toOption.getD n) := by
  simp only [step, receive, List.take_of_length_le hlen, hip, openDatagram_datagram hc, bind, Except.bind,
    Bool.false_eq_true, if_false]
  rw [← ownId, if_neg hid]
  cases handle c _ addr ⟨ownId c sk', m.hash c sk', m.messageId.toU8, m.encode c.rlp⟩ <;> rfl

end

end Node

end Discv4

end EthereumSentry
