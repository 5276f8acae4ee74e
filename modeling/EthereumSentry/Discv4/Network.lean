import EthereumSentry.Discv4.Egress
import EthereumSentry.Discv4.Lookup
import EthereumSentry.Discv4.PacketSize

/-!
# A network of nodes

Nodes that run this code, on a network that loses, duplicates, reorders and misdelivers datagrams, but forges none
(`Network.step`). A pong tells a node the endpoint that the node itself has put into the ping, so that no node learns an
address of its own from others; and a ping is recorded with its UDP port in place of the TCP port. What the nodes
know of each other is therefore what they say of themselves, but for the TCP port (`network_truthful`).
-/

set_option autoImplicit false

namespace EthereumSentry

namespace Discv4

/-! ## What a router upholds -/

namespace Router

open Prog (after after_ok after_error after_bind)

/-- What holds of the endpoint of the node, of its records, of the requests that are queued, of the hashes of the pings
in flight, and of the records that lookups are told of. -/
structure Upholds (P : NodeRecord → Prop) (E : Endpoint → Prop) (M : EgressMessage → Prop) (H : H256 → Prop)
    (r : Router) : Prop where
  endpoint : E r.nodeEndpoint
  table : r.connected.Holds P
  requests : ∀ x ∈ r.egressRequests, M x.2.2
  pings : ∀ hash, (r.inflightPingRequests hash).isSome → H hash
  told : ∀ cb m, .neighbours cb m ∈ r.signals → ∀ n ∈ m.nodes, P n

/-- What a message has to say to be handled. -/
def Admissible (P : NodeRecord → Prop) (E : Endpoint → Prop) (M : EgressMessage → Prop) (H : H256 → Prop)
    (remoteId : NodeId) (hash : H256) : EgressMessage → Prop
  | .ping m => P {
      address := m.fromEndpoint.address
      udpPort := m.fromEndpoint.udpPort
      tcpPort := m.fromEndpoint.udpPort
      id := remoteId } ∧ M (.pong ⟨m.fromEndpoint, hash, m.expire⟩)
  | .pong m => H m.echo →
      ∀ e, E e → E { e with address := m.toEndpoint.address, udpPort := m.toEndpoint.udpPort }
  | .findNode m => ∀ nodes : List NodeRecord, (∀ n ∈ nodes, P n) → M (.neighbours ⟨nodes, m.expire⟩)
  | .neighbours m => ∀ n ∈ m.nodes, P n

variable {c : Crates} {sk : c.SecretKey} {addr : SocketAddr} {r : Router} {P P' : NodeRecord → Prop}
  {E E' : Endpoint → Prop} {M M' : EgressMessage → Prop} {H H' : H256 → Prop} {remoteId : NodeId} {hash : H256}
  {data : Bytes}

theorem Upholds.mono (hr : r.Upholds P E M H) (hP : ∀ n, P n → P' n) (hE : ∀ e, E e → E' e) (hM : ∀ m, M m → M' m)
    (hH : ∀ hash, H hash → H' hash) : r.Upholds P' E' M' H' where
  endpoint := hE _ hr.endpoint
  table i n hn := hP n (hr.table i n hn)
  requests x hx := hM _ (hr.requests x hx)
  pings h hs := hH h (hr.pings h hs)
  told cb m hm n hn := hP n (hr.told cb m hm n hn)

theorem Upholds.request (hr : r.Upholds P E M H) {peer : NodeId} {message : EgressMessage} (hm : M message) :
    (r.request addr peer message).Upholds P E M H := by
  refine { hr with requests := fun x hx => ?_ }
  rcases List.mem_append.1 hx with hx | hx
  · exact hr.requests x hx
  · obtain rfl := List.mem_singleton.1 hx
    exact hm

/-- Neighbours that are sent to the lookups. -/
theorem Upholds.signal (hr : r.Upholds P E M H) {signals : List Signal}
    (h : ∀ cb m, .neighbours cb m ∈ signals → ∀ n ∈ m.nodes, P n) : (r.signal signals).Upholds P E M H :=
  { hr with told := fun cb m hm => (List.mem_append.1 hm).elim (hr.told cb m) (h cb m) }

theorem Upholds.withTable (hr : r.Upholds P E M H) {t : Table} (ht : t.Holds P) :
    Upholds P E M H { r with connected := t } :=
  { hr with table := ht }

theorem Upholds.addVerified (c : Crates) (hr : r.Upholds P E M H) {node : NodeRecord} (hn : P node) :
    Upholds P E M H { r with connected := r.connected.addVerified c.keccak256 node } :=
  hr.withTable (Table.addVerified_holds hr.table fun _ => hn)

theorem Upholds.unexpect (hr : r.Upholds P E M H) (expectedPings : SocketAddr → Option (List (RequestId × Callback))) :
    Upholds P E M H { r with expectedPings := expectedPings } :=
  { hr with }

/-- A ping that is no longer in flight. -/
theorem Upholds.forget (hr : r.Upholds P E M H) (hash : H256) :
    Upholds P E M H { r with inflightPingRequests := Function.update r.inflightPingRequests hash none } := by
  refine { hr with pings := fun h hs => ?_ }
  dsimp only at hs
  rw [Function.update_apply] at hs
  split at hs
  · cases hs
  · exact hr.pings h hs

theorem holds_foldl_addSeen {nodes : List NodeRecord} (h : ∀ n ∈ nodes, P n) : ∀ {t : Table}, t.Holds P →
    (nodes.foldl (·.addSeen c.keccak256) t).Holds P := by
  induction nodes with
  | nil => exact fun ht => ht
  | cons n nodes ih =>
    intro t ht
    exact ih (fun n hn => h n (List.mem_cons_of_mem _ hn)) (Table.addSeen_holds ht fun _ => h n List.mem_cons_self)

theorem upholds_handlePing (hr : r.Upholds P E M H)
    (h : ∀ m, PingMessage.decode c.rlp data = .ok m → Admissible P E M H remoteId hash (.ping m)) :
    (after (handlePing c addr remoteId hash data) r).Upholds P E M H := by
  refine after_decoded (P := Upholds P E M H) hr fun m hd => ?_
  obtain ⟨hrecord, hpong⟩ := h m hd
  rw [after_bind (EStateM.run_modify _ _), after_bind (EStateM.run_modify _ _), after_bind (EStateM.run_get _)]
  have hadded := hr.addVerified c hrecord
  split
  · exact ((hadded.request hpong).unexpect _).signal (by simp)
  · exact hadded.request hpong

theorem upholds_handlePong (remoteId : NodeId) (hash : H256) (hr : r.Upholds P E M H)
    (h : ∀ m, PongMessage.decode c.rlp data = .ok m → Admissible P E M H remoteId hash (.pong m)) :
    (after (handlePong c data) r).Upholds P E M H := by
  refine after_decoded (P := Upholds P E M H) hr fun m hd => ?_
  rw [after_bind (EStateM.run_get r)]
  split
  · rename_i cbs hsome
    have hping : H m.echo := hr.pings m.echo (by rw [hsome, Option.isSome_some])
    have htold : Upholds P E M H { r with
        inflightPingRequests := Function.update r.inflightPingRequests m.echo none
        nodeEndpoint := { r.nodeEndpoint with
          address := m.toEndpoint.address
          udpPort := m.toEndpoint.udpPort } } :=
      { hr.forget m.echo with endpoint := h m hd hping _ hr.endpoint }
    exact htold.signal (by simp)
  · exact hr

theorem upholds_handleFindNode (hash : H256) (hr : r.Upholds P E M H)
    (h : ∀ m, FindNodeMessage.decode c.rlp data = .ok m → Admissible P E M H remoteId hash (.findNode m)) :
    (after (handleFindNode c addr remoteId data) r).Upholds P E M H := by
  refine after_decoded (P := Upholds P E M H) hr fun m hd => ?_
  rw [after_bind (EStateM.run_get r)]
  dsimp only
  by_cases hget : (r.connected.get c.keccak256 remoteId).isSome
  · obtain ⟨i, hneighbours, -⟩ := Table.neighbours_of_get hget
    rw [if_pos hget, hneighbours]
    exact hr.request (h m hd _ fun n hn => hr.table i n (List.mem_append_left _ (KBucket.mem_neighbours hn)))
  · rw [if_neg hget]
    exact hr

theorem upholds_handleNeighbours (hash : H256) (hr : r.Upholds P E M H)
    (h : ∀ m, NeighboursMessage.decode c.rlp data = .ok m → Admissible P E M H remoteId hash (.neighbours m)) :
    (after (handleNeighbours c remoteId data) r).Upholds P E M H := by
  rw [handleNeighbours, after_bind (EStateM.run_get r)]
  dsimp only
  split
  · exact hr
  · refine after_decoded (P := Upholds P E M H) hr fun m hd => ?_
    refine (hr.withTable (holds_foldl_addSeen (c := c) (h m hd) hr.table)).signal fun cb m' hm' => ?_
    obtain ⟨cb', -, heq⟩ := List.mem_map.1 hm'
    cases heq
    exact h m hd

/-- **A message that says what it has to** is handled. -/
theorem upholds_handle (hr : r.Upholds P E M H) {typ : UInt8} {m : EgressMessage}
    (hid : MessageId.fromU8 typ = some m.messageId) (hd : MessageId.decode c.rlp data m.messageId = .ok m)
    (h : Admissible P E M H remoteId hash m) : (after (handle c addr remoteId hash typ data) r).Upholds P E M H := by
  have hok : ∀ {α : Type} {x : Except Rlp.DecoderError α} {f : α → EgressMessage}, x.map f = .ok m →
      ∀ a, x = .ok a → f a = m := fun hx a ha => by
    rw [ha] at hx
    exact Except.ok.inj hx
  unfold handle
  cases m with
  | ping m =>
    simp only [hid, EgressMessage.messageId]
    exact upholds_handlePing hr fun m' hm' => hok hd m' hm' ▸ h
  | pong m =>
    simp only [hid, EgressMessage.messageId]
    exact upholds_handlePong remoteId hash hr fun m' hm' => hok hd m' hm' ▸ h
  | findNode m =>
    simp only [hid, EgressMessage.messageId]
    exact upholds_handleFindNode hash hr fun m' hm' => hok hd m' hm' ▸ h
  | neighbours m =>
    simp only [hid, EgressMessage.messageId]
    exact upholds_handleNeighbours hash hr fun m' hm' => hok hd m' hm' ▸ h

/-- **A datagram of a node**: when it says what it has to, it is handled; when it is cut off, it is not opened. -/
theorem upholds_ingress (hc : c.SecpLaws) (hR : c.rlp.Lawful) (hl : c.rlp.ListLaws) (hr : r.Upholds P E M H)
    {sk' : c.SecretKey} {m : EgressMessage} (hcollide :
      c.keccak256 (((m.datagram c sk').take maxPacketSize).drop 32) = c.keccak256 ((m.datagram c sk').drop 32) →
        ((m.datagram c sk').take maxPacketSize).drop 32 = (m.datagram c sk').drop 32)
    (h : Admissible P E M H (Node.ownId c sk') (m.hash c sk') m) :
    (after (ingress c sk addr ((m.datagram c sk').take maxPacketSize)) r).Upholds P E M H := by
  by_cases hip : addr.ip.isIpv6
  · rw [ingress, if_pos hip]
    exact hr
  rw [after_ingress (Bool.not_eq_true _ ▸ hip)]
  rcases Nat.lt_or_ge maxPacketSize (m.datagram c sk').length with hlen | hlen
  · -- the hash in front is that of the whole datagram
    cases ho : openDatagram c ((m.datagram c sk').take maxPacketSize) with
    | error e => exact hr
    | ok o =>
      obtain ⟨-, hcheck, -⟩ := checks_of_openDatagram ho
      have hhash : (m.datagram c sk').take 32 = (c.keccak256 ((m.datagram c sk').drop 32)).bytes := by
        rw [EgressMessage.datagram, List.take_left' (FixedBytes.length_bytes _),
          List.drop_left' (FixedBytes.length_bytes _)]
      rw [List.take_take, Nat.min_eq_left (by decide), hhash] at hcheck
      have heq := congrArg List.length (hcollide (FixedBytes.ext hcheck.symm))
      rw [List.length_drop, List.length_drop, List.length_take, Nat.min_eq_left hlen.le] at heq
      unfold maxPacketSize at heq hlen
      omega
  · rw [List.take_of_length_le hlen, openDatagram_datagram hc]
    have hsize : (m.encode c.rlp).length < 2 ^ 64 := by
      rw [length_datagram, maxPacketSize] at hlen
      omega
    dsimp only
    split
    · exact hr
    · exact upholds_handle hr (MessageId.fromU8_toU8 _) (MessageId.decode_encode hR hl hsize) h

end Router

/-! ## The records of a lookup -/

/-- **What a lookup finds**, it finds in the table or in the answers. -/
theorem Lookup.lookupInner_holds {keccak256 : Bytes → H256} {target : NodeId} {answers : Answers}
    {P : NodeRecord → Prop} {t : Table} (ht : t.Holds P) (ha : ∀ lookupRound d messages,
      answers lookupRound d = some messages → ∀ m ∈ messages, ∀ n ∈ m.nodes, P n) :
    ∃ s, lookupInner keccak256 t target answers = some s ∧ (∀ n ∈ s.result, P n) ∧ ∀ q ∈ s.asked, P q.record := by
  obtain ⟨s, hrun, hs, hsettled, -⟩ := (start_inv keccak256 target t).run answers rfl
  have hasked : ∀ q ∈ s.asked, P q.record := fun q hq => by
    rcases (hs.sourced_asked hsettled hq).2 with h | ⟨q', -, messages, hmessages, m, hm, h⟩
    · obtain ⟨i, hi⟩ := Table.mem_records.1 h
      exact ht i _ (List.mem_append_left _ hi)
    · exact ha _ _ messages hmessages m hm _ h
  refine ⟨s, hrun, fun n hn => ?_, hasked⟩
  obtain ⟨q, hq, rfl, -⟩ := (hs.answered hsettled n).1 hn
  exact hasked q hq

/-! ## The network -/

/-- What a node is started with. -/
structure Config (c : Crates) where
  secretKey : c.SecretKey
  ip : FixedBytes 4
  port : UInt16
  tcpPort : UInt16
  publicAddress : Option (FixedBytes 4)
  enableUpnp : Bool
  bootstrapNodes : List NodeRecord

namespace Config

variable {c : Crates} (config : Config c)

def id : NodeId := Node.ownId c config.secretKey

/-- The endpoint that a node starts with. -/
def nodeEndpoint : Endpoint where
  address := .v4 (config.publicAddress.getD config.ip)
  udpPort := config.port
  tcpPort := config.tcpPort

end Config

/-- The datagram that the socket is about to take. -/
def Egress.datagram : Egress → List Bytes
  | sending _ datagram _ => [datagram]
  | idle | sent _ _ => []

/-- The nodes, with the datagrams that were handed to their sockets. -/
structure Network (ι : Type) where
  nodes : ι → Routers
  pool : List Bytes
  /-- The endpoints that a node has had. -/
  endpoints : ι → List Endpoint
  /-- The addresses that the gateway of a node has told. -/
  external : ι → List (FixedBytes 4)

namespace Network

inductive Event (ι : Type) where
  /-- A step of a node. -/
  | node (i : ι) (e : Routers.Event)
  /-- The gateway of a node tells its external address. -/
  | upnp (i : ι) (v : FixedBytes 4)

variable {ι : Type} {c : Crates} (configs : ι → Config c)

def start : Network ι where
  nodes i := Routers.new c (configs i).secretKey (configs i).bootstrapNodes (configs i).nodeEndpoint
  pool := []
  endpoints i := [(configs i).nodeEndpoint]
  external _ := []

/-- Datagrams come from the network. A lookup or the pinger puts an endpoint of its node into a ping. Other requests are
those of the ingress router, and queries. Lookups do not change the endpoint. -/
def Allowed (s : Network ι) (i : ι) : Routers.Event → Prop
  | .receive _ datagram => datagram ∈ s.pool
  | .ping _ _ message => message.fromEndpoint ∈ s.endpoints i
  | .request addr peer message =>
    (addr, peer, message) ∈ (s.nodes i).router.egressRequests ∨ message.messageId = .findNode
  | .change _ _ nodeEndpoint => nodeEndpoint = (s.nodes i).router.nodeEndpoint
  | .socket _ | .spawn | .timeout _ _ => True

instance (s : Network ι) (i : ι) (e : Routers.Event) : Decidable (s.Allowed i e) := match e with
  | .receive _ datagram => inferInstanceAs (Decidable (datagram ∈ s.pool))
  | .ping _ _ message => inferInstanceAs (Decidable (message.fromEndpoint ∈ s.endpoints i))
  | .request _ _ _ => inferInstanceAs (Decidable (_ ∨ _))
  | .change _ _ nodeEndpoint => inferInstanceAs (Decidable (nodeEndpoint = (s.nodes i).router.nodeEndpoint))
  | .socket _ | .spawn | .timeout _ _ => .isTrue trivial

section

variable [DecidableEq ι]

/-- A node takes a step. -/
def update (s : Network ι) (i : ι) (node : Routers) : Network ι where
  nodes := Function.update s.nodes i node
  pool := s.pool ++ node.egress.datagram
  endpoints := Function.update s.endpoints i (s.endpoints i ++ [node.router.nodeEndpoint])
  external := s.external

def step (s : Network ι) : Event ι → Option (Network ι)
  | .node i e => if s.Allowed i e then ((s.nodes i).step c (configs i).secretKey e).map (s.update i) else none
  | .upnp i v =>
    if (configs i).enableUpnp then
      let node := s.nodes i
      let nodeEndpoint := { node.router.nodeEndpoint with address := .v4 v }
      let s := s.update i { node with router := { node.router with nodeEndpoint := nodeEndpoint } }
      some { s with external := Function.update s.external i (s.external i ++ [v]) }
    else none

end

/-! ## What nodes say of themselves -/

/-- The addresses that a node was started with, or was told by its gateway. -/
def addresses (s : Network ι) (i : ι) : List (FixedBytes 4) :=
  (configs i).publicAddress.getD (configs i).ip :: s.external i

/-- An endpoint that a node may say is its own. -/
def Own (s : Network ι) (i : ι) (e : Endpoint) : Prop :=
  ∃ v ∈ s.addresses configs i, e = ⟨.v4 v, (configs i).port, (configs i).tcpPort⟩

/-- A record of a node: a bootstrap record, or the id of a node with an address of its own, and with its UDP port as
both ports. -/
def Named (s : Network ι) (n : NodeRecord) : Prop :=
  (∃ i, n ∈ (configs i).bootstrapNodes) ∨ ∃ i, ∃ v ∈ s.addresses configs i, n = {
    address := .v4 v
    tcpPort := (configs i).port
    udpPort := (configs i).port
    id := (configs i).id }

/-- A message that a node sends. -/
def Genuine (s : Network ι) (i : ι) : EgressMessage → Prop
  | .ping m => m.fromEndpoint ∈ s.endpoints i
  | .pong m => ∃ j ping, (EgressMessage.ping ping).datagram c (configs j).secretKey ∈ s.pool ∧
      m.echo = (EgressMessage.ping ping).hash c (configs j).secretKey ∧ m.toEndpoint = ping.fromEndpoint
  | .findNode _ => True
  | .neighbours m => ∀ n ∈ m.nodes, s.Named configs n

/-- The hash of a ping of a node. -/
def Pinged (s : Network ι) (i : ι) (hash : H256) : Prop :=
  ∃ ping, (EgressMessage.ping ping).datagram c (configs i).secretKey ∈ s.pool ∧
    hash = (EgressMessage.ping ping).hash c (configs i).secretKey ∧ ping.fromEndpoint ∈ s.endpoints i

/-- What is hashed when the datagrams are sent and received. -/
def hashed (pool : List Bytes) : List Bytes :=
  pool.map (·.drop 32) ++ pool.map fun datagram => (datagram.take maxPacketSize).drop 32

/-- The hashes of the datagrams do not collide. -/
def CollisionFree (c : Crates) (pool : List Bytes) : Prop :=
  ∀ x ∈ hashed pool, ∀ y ∈ hashed pool, c.keccak256 x = c.keccak256 y → x = y

/-- What is said of the nodes in a state of the network. -/
structure Inv (s : Network ι) : Prop where
  nodes : ∀ i, (s.nodes i).router.Upholds (s.Named configs) (s.Own configs i) (s.Genuine configs i)
    (s.Pinged configs i)
  egress : ∀ i, (s.nodes i).egress.datagram ⊆ s.pool
  endpoints : ∀ i, ∀ e ∈ s.endpoints i, s.Own configs i e
  pool : ∀ datagram ∈ s.pool, ∃ i m, datagram = EgressMessage.datagram c (configs i).secretKey m ∧
    s.Genuine configs i m

/-- What the nodes of a network know and say is so: of themselves, the addresses that they were started with or told by
their gateways, with their own ports; of each other, what is in a record of a node. -/
structure Truthful (configs : ι → Config c) (s : Network ι) : Prop where
  endpoint : ∀ i, s.Own configs i (s.nodes i).router.nodeEndpoint
  tables : ∀ i, (s.nodes i).router.connected.Holds (s.Named configs)
  told : ∀ i cb m, .neighbours cb m ∈ (s.nodes i).router.signals → ∀ n ∈ m.nodes, s.Named configs n
  queued : ∀ i, ∀ x ∈ (s.nodes i).router.egressRequests, s.Genuine configs i x.2.2
  sent : ∀ datagram ∈ s.pool, ∃ i m, datagram = EgressMessage.datagram c (configs i).secretKey m ∧
    s.Genuine configs i m
  pings : ∀ i hash, ((s.nodes i).router.inflightPingRequests hash).isSome → s.Pinged configs i hash
  endpoints : ∀ i, ∀ e ∈ s.endpoints i, s.Own configs i e

/-- More was sent and told. -/
structure Grows (s s' : Network ι) : Prop where
  pool : s.pool ⊆ s'.pool
  endpoints : ∀ i, s.endpoints i ⊆ s'.endpoints i
  external : ∀ i, s.external i ⊆ s'.external i

variable {configs} {s s' : Network ι} {i : ι}

namespace Grows

theorem refl (s : Network ι) : s.Grows s := ⟨fun _ => id, fun _ _ => id, fun _ _ => id⟩

variable (h : s.Grows s')

include h

theorem trans {s'' : Network ι} (h' : s'.Grows s'') : s.Grows s'' :=
  ⟨List.Subset.trans h.pool h'.pool, fun i => List.Subset.trans (h.endpoints i) (h'.endpoints i),
    fun i => List.Subset.trans (h.external i) (h'.external i)⟩

theorem addresses : s.addresses configs i ⊆ s'.addresses configs i := List.cons_subset_cons _ (h.external i)

theorem own {e : Endpoint} (he : s.Own configs i e) : s'.Own configs i e := by
  obtain ⟨v, hv, rfl⟩ := he
  exact ⟨v, h.addresses hv, rfl⟩

theorem named {n : NodeRecord} (hn : s.Named configs n) : s'.Named configs n := by
  rcases hn with hn | ⟨i, v, hv, rfl⟩
  · exact .inl hn
  · exact .inr ⟨i, v, h.addresses hv, rfl⟩

theorem genuine {m : EgressMessage} (hm : s.Genuine configs i m) : s'.Genuine configs i m := by
  cases m with
  | ping m => exact h.endpoints i hm
  | pong m =>
    obtain ⟨j, ping, hping, hm⟩ := hm
    exact ⟨j, ping, h.pool hping, hm⟩
  | findNode => exact trivial
  | neighbours m => exact fun n hn => h.named (hm n hn)

theorem pinged {hash : H256} (hh : s.Pinged configs i hash) : s'.Pinged configs i hash := by
  obtain ⟨ping, hping, hhash, hfrom⟩ := hh
  exact ⟨ping, h.pool hping, hhash, h.endpoints i hfrom⟩

theorem upholds {r : Router}
    (hr : r.Upholds (s.Named configs) (s.Own configs i) (s.Genuine configs i) (s.Pinged configs i)) :
    r.Upholds (s'.Named configs) (s'.Own configs i) (s'.Genuine configs i) (s'.Pinged configs i) :=
  hr.mono (fun _ => h.named) (fun _ => h.own) (fun _ => h.genuine) (fun _ => h.pinged)

end Grows

/-! ## Steps -/

theorem CollisionFree.mono {pool pool' : List Bytes} (h : CollisionFree c pool') (hsub : pool ⊆ pool') :
    CollisionFree c pool := by
  have hhashed : hashed pool ⊆ hashed pool' := fun x hx => by
    simp only [hashed, List.mem_append, List.mem_map] at hx ⊢
    exact hx.imp (fun ⟨d, hd, heq⟩ => ⟨d, hsub hd, heq⟩) fun ⟨d, hd, heq⟩ => ⟨d, hsub hd, heq⟩
  exact fun x hx y hy => h x (hhashed hx) y (hhashed hy)

/-- Without a collision, a hash tells its ping. -/
theorem CollisionFree.ping_eq (hfree : CollisionFree c s.pool) (hc : c.SecpLaws) (hl : c.rlp.ListLaws)
    (hR : c.rlp.SizeLaws) {sk sk' : c.SecretKey} {m m' : PingMessage}
    (hm : (EgressMessage.ping m).datagram c sk ∈ s.pool) (hm' : (EgressMessage.ping m').datagram c sk' ∈ s.pool)
    (h : (EgressMessage.ping m).hash c sk = (EgressMessage.ping m').hash c sk') : m = m' := by
  have hdrop : ∀ (k : c.SecretKey) (p : PingMessage), ((EgressMessage.ping p).datagram c k).drop 32 =
      signed c k (MessageId.ping.toU8 :: p.encode c.rlp) := fun k p => List.drop_left' (FixedBytes.length_bytes _)
  have hsigned := hfree _ (List.mem_append_left _ (List.mem_map_of_mem hm)) _
    (List.mem_append_left _ (List.mem_map_of_mem hm')) (by rw [hdrop, hdrop]; exact h)
  have hdatagram : (EgressMessage.ping m).datagram c sk = (EgressMessage.ping m').datagram c sk' := by
    rw [hdrop, hdrop] at hsigned
    simp only [EgressMessage.datagram, EgressMessage.messageId, EgressMessage.encode, hsigned]
  have hopen := (openDatagram_datagram hc sk (.ping m)).symm.trans
    ((congrArg (openDatagram c) hdatagram).trans (openDatagram_datagram hc sk' (.ping m')))
  have hencode : m.encode c.rlp = m'.encode c.rlp := (Opened.mk.inj (Except.ok.inj hopen)).2.2.2
  have hsize : ∀ p : PingMessage, (p.encode c.rlp).length < 2 ^ 64 := fun p =>
    (length_encode_ping_le hR p).trans_lt (by decide)
  have hdecode := PingMessage.decode_encode hl (hsize m)
  rw [hencode, PingMessage.decode_encode hl (hsize m')] at hdecode
  exact (Except.ok.inj hdecode).symm

theorem start_inv (configs : ι → Config c) : (start configs).Inv configs where
  nodes i :=
    { endpoint := ⟨_, List.mem_cons_self, rfl⟩
      table := List.foldlRecOn (motive := fun t : Table => t.Holds ((start configs).Named configs))
        (configs i).bootstrapNodes _ (Table.new_holds _) fun _ ht n hn =>
          Table.addVerified_holds ht fun _ => .inl ⟨i, hn⟩
      requests := fun _ hx => nomatch hx
      pings := fun _ hs => nomatch hs
      told := fun _ _ hm => nomatch hm }
  egress _ := List.nil_subset _
  endpoints i e he := by
    obtain rfl := List.mem_singleton.1 he
    exact ⟨_, List.mem_cons_self, rfl⟩
  pool _ hd := nomatch hd

theorem Inv.truthful (hs : s.Inv configs) : s.Truthful configs where
  endpoint i := (hs.nodes i).endpoint
  tables i := (hs.nodes i).table
  told i := (hs.nodes i).told
  queued i := (hs.nodes i).requests
  sent := hs.pool
  pings i := (hs.nodes i).pings
  endpoints := hs.endpoints

/-- What the nodes say may be handled by every node. -/
theorem Inv.admissible (hs : s.Inv configs) (hfree : CollisionFree c s.pool) (hc : c.SecpLaws) (hl : c.rlp.ListLaws)
    (hR : c.rlp.SizeLaws) (i : ι) {j : ι} {m : EgressMessage} (hm : s.Genuine configs j m)
    (hpool : m.datagram c (configs j).secretKey ∈ s.pool) :
    Router.Admissible (s.Named configs) (s.Own configs i) (s.Genuine configs i) (s.Pinged configs i) (configs j).id
      (m.hash c (configs j).secretKey) m := by
  cases m with
  | ping m =>
    obtain ⟨v, hv, hfrom⟩ := hs.endpoints j m.fromEndpoint hm
    exact ⟨.inr ⟨j, v, hv, by rw [hfrom]⟩, j, m, hpool, rfl, rfl⟩
  | pong m =>
    -- the node has put its endpoint into the ping itself
    rintro ⟨ping, hping, hhash, hfrom⟩ e he
    obtain ⟨j', ping', hping', hhash', hto⟩ := hm
    obtain rfl := hfree.ping_eq hc hl hR hping hping' (hhash.symm.trans hhash')
    obtain ⟨v, hv, hown⟩ := hs.endpoints i _ hfrom
    obtain ⟨v', -, rfl⟩ := he
    rw [hto, hown]
    exact ⟨v, hv, rfl⟩
  | findNode m => exact fun nodes hnodes => hnodes
  | neighbours m => exact hm

section

variable [DecidableEq ι]

theorem grows_update (s : Network ι) (i : ι) (node : Routers) : s.Grows (s.update i node) where
  pool := List.subset_append_left _ _
  endpoints j := by
    simp only [update, Function.update_apply]
    split
    · rename_i h
      rw [h]
      exact List.subset_append_left _ _
    · exact List.Subset.refl _
  external _ := List.Subset.refl _

/-- **A step of a node** that keeps what its router upholds, and sends what it may. -/
theorem Inv.update (hs : s.Inv configs) {node : Routers}
    (hr : node.router.Upholds ((s.update i node).Named configs) ((s.update i node).Own configs i)
      ((s.update i node).Genuine configs i) ((s.update i node).Pinged configs i))
    (hegress : ∀ datagram ∈ node.egress.datagram, datagram ∈ s.pool ∨
      ∃ m, datagram = EgressMessage.datagram c (configs i).secretKey m ∧ s.Genuine configs i m) :
    (s.update i node).Inv configs := by
  have hgrows := s.grows_update i node
  refine ⟨fun j => ?_, fun j => ?_, fun j e he => ?_, fun datagram hd => ?_⟩
  · by_cases hj : j = i
    · subst hj
      simpa only [Network.update, Function.update_self] using hr
    · simpa only [Network.update, Function.update_of_ne hj] using hgrows.upholds (hs.nodes j)
  · by_cases hj : j = i
    · subst hj
      simp only [Network.update, Function.update_self]
      exact List.subset_append_right _ _
    · simp only [Network.update, Function.update_of_ne hj]
      exact List.subset_append_of_subset_left _ (hs.egress j)
  · by_cases hj : j = i
    · subst hj
      simp only [Network.update, Function.update_self, List.mem_append, List.mem_singleton] at he
      rcases he with he | rfl
      · exact hgrows.own (hs.endpoints j e he)
      · exact hr.endpoint
    · simp only [Network.update, Function.update_of_ne hj] at he
      exact hgrows.own (hs.endpoints j e he)
  · have hold : datagram ∈ s.pool ∨
        ∃ m, datagram = EgressMessage.datagram c (configs i).secretKey m ∧ s.Genuine configs i m :=
      (List.mem_append.1 hd).elim .inl (hegress datagram)
    rcases hold with hold | ⟨m, rfl, hm⟩
    · obtain ⟨j, m, rfl, hm⟩ := hs.pool datagram hold
      exact ⟨j, m, rfl, hgrows.genuine hm⟩
    · exact ⟨i, m, rfl, hgrows.genuine hm⟩

/-- A step of a node that sends nothing. -/
theorem Inv.update_silent (hs : s.Inv configs) (node : Routers) (hegress : node.egress.datagram ⊆ s.pool)
    (hr : node.router.Upholds (s.Named configs) (s.Own configs i) (s.Genuine configs i) (s.Pinged configs i)) :
    (s.update i node).Inv configs :=
  hs.update ((s.grows_update i node).upholds hr) fun _ hd => .inl (hegress hd)

/-- The egress router takes a request. -/
theorem Inv.serve (hs : s.Inv configs) (node : Routers) (hrouter : node.router = (s.nodes i).router)
    (hidle : node.egress = .idle) (addr : SocketAddr) (peer : NodeId) {m : EgressMessage}
    (hm : s.Genuine configs i m) (sender : Option Callback) :
    (s.update i (node.serve c (configs i).secretKey addr peer m sender)).Inv configs := by
  have hr := hrouter ▸ hs.nodes i
  have hnone : node.egress.datagram ⊆ s.pool := by simp [hidle, Egress.datagram]
  unfold Routers.serve
  split
  · exact hs.update_silent _ hnone hr
  dsimp only
  split
  · rename_i hping
    obtain ⟨p, rfl⟩ : ∃ p, m = .ping p := by
      cases m with
      | ping p => exact ⟨p, rfl⟩
      | pong | findNode | neighbours => cases hping
    split
    · refine hs.update ?_ fun datagram hd => .inr ⟨.ping p, List.mem_singleton.1 hd, hm⟩
      refine { (s.grows_update i _).upholds hr with pings := fun hash hs' => ?_ }
      dsimp only at hs'
      rw [Function.update_apply] at hs'
      split at hs'
      · rename_i hhash
        refine ⟨p, List.mem_append_right _ (List.mem_singleton_self _), hhash, ?_⟩
        exact (s.grows_update i _).endpoints i hm
      · exact (s.grows_update i _).pinged (hr.pings hash hs')
    · rename_i hsome
      refine hs.update_silent _ hnone { hr with pings := fun hash hs' => ?_ }
      dsimp only at hs'
      rw [Function.update_apply] at hs'
      split at hs'
      · rename_i hhash
        refine hr.pings hash ?_
        rwa [hhash, ← Option.not_isNone, Bool.not_eq_true', ← Bool.not_eq_true]
      · exact hr.pings hash hs'
  · exact hs.update ((s.grows_update i _).upholds hr) fun datagram hd => .inr ⟨m, List.mem_singleton.1 hd, hm⟩

theorem grows_step {e : Event ι} (h : s.step configs e = some s') : s.Grows s' := by
  cases e with
  | node i e =>
    obtain ⟨-, h⟩ := Option.ite_none_right_eq_some.1 h
    obtain ⟨node, -, rfl⟩ := Option.map_eq_some_iff.1 h
    exact s.grows_update i node
  | upnp i v =>
    obtain ⟨-, h⟩ := Option.ite_none_right_eq_some.1 h
    cases h
    have hgrows := s.grows_update i { s.nodes i with router := { (s.nodes i).router with
      nodeEndpoint := { (s.nodes i).router.nodeEndpoint with address := .v4 v } } }
    refine ⟨hgrows.pool, hgrows.endpoints, fun j => ?_⟩
    dsimp only [Network.update]
    rw [Function.update_apply]
    split
    · rename_i hj
      rw [hj]
      exact List.subset_append_left _ _
    · exact List.Subset.refl _

theorem Inv.node (hs : s.Inv configs) (hfree : CollisionFree c s.pool) (hc : c.SecpLaws) (hr : c.rlp.Lawful)
    (hl : c.rlp.ListLaws) (hR : c.rlp.SizeLaws) {e : Routers.Event} (hallowed : s.Allowed i e) {node : Routers}
    (h : (s.nodes i).step c (configs i).secretKey e = some node) : (s.update i node).Inv configs := by
  have hsame := hs.nodes i
  have hsent := hs.egress i
  cases e with
  | ping addr peer message =>
    obtain ⟨hidle, h⟩ := Option.ite_none_right_eq_some.1 h
    cases h
    exact hs.serve { s.nodes i with asked := (s.nodes i).asked ++ [peer] } rfl hidle addr peer
      (m := .ping message) hallowed _
  | request addr peer message =>
    obtain ⟨hidle, h⟩ := Option.ite_none_right_eq_some.1 h
    cases h
    refine hs.serve _ rfl hidle addr peer (hallowed.elim (hsame.requests _) fun hid => ?_) none
    cases message with
    | findNode => exact trivial
    | ping | pong | neighbours => cases hid
  | socket sent =>
    simp only [Routers.step] at h
    split at h
    · cases h
      exact hs.update_silent _ (List.nil_subset _) hsame
    · cases h
      exact hs.update_silent _ (List.nil_subset _) hsame
    · cases h
      exact hs.update_silent _ (List.nil_subset _) hsame
    · cases h
  | spawn =>
    simp only [Routers.step] at h
    split at h
    · cases h
      exact hs.update_silent _ (List.nil_subset _) hsame
    · cases h
  | timeout hash peer =>
    obtain ⟨-, h⟩ := Option.ite_none_right_eq_some.1 h
    cases h
    unfold Routers.timeout
    split
    · exact hs.update_silent _ hsent ((hsame.forget hash).withTable (Table.remove_holds hsame.table peer))
    · exact hs.update_silent _ hsent hsame
  | receive addr datagram =>
    cases h
    obtain ⟨j, m, rfl, hm⟩ := hs.pool datagram hallowed
    refine hs.update_silent _ hsent (Router.upholds_ingress hc hr hl hsame ?_ ?_)
    · exact hfree _ (List.mem_append_right _ (List.mem_map_of_mem hallowed)) _
        (List.mem_append_left _ (List.mem_map_of_mem hallowed))
    · exact hs.admissible hfree hc hl hR i hm hallowed
  | change expectedPings inflightFindNodeRequests nodeEndpoint =>
    cases h
    have hendpoint : s.Own configs i nodeEndpoint := hallowed ▸ hsame.endpoint
    exact hs.update_silent _ hsent { hsame with endpoint := hendpoint }

/-- What the gateway tells is an address of the node from then on. -/
theorem Inv.upnp (hs : s.Inv configs) (i : ι) (v : FixedBytes 4) (h : s.step configs (.upnp i v) = some s') :
    s'.Inv configs := by
  obtain ⟨-, h⟩ := Option.ite_none_right_eq_some.1 h
  cases h
  have hgrows : s.Grows { s with external := Function.update s.external i (s.external i ++ [v]) } := by
    refine ⟨List.Subset.refl _, fun _ => List.Subset.refl _, fun j => ?_⟩
    dsimp only
    rw [Function.update_apply]
    split
    · rename_i hj
      rw [hj]
      exact List.subset_append_left _ _
    · exact List.Subset.refl _
  have htold : Inv configs { s with external := Function.update s.external i (s.external i ++ [v]) } := by
    refine ⟨fun j => hgrows.upholds (hs.nodes j), hs.egress, fun j e he => hgrows.own (hs.endpoints j e he), ?_⟩
    intro datagram hd
    obtain ⟨j, m, rfl, hm⟩ := hs.pool datagram hd
    exact ⟨j, m, rfl, hgrows.genuine hm⟩
  obtain ⟨v', -, heq⟩ := (hs.nodes i).endpoint
  have hown : Own configs { s with external := Function.update s.external i (s.external i ++ [v]) } i
      { (s.nodes i).router.nodeEndpoint with address := .v4 v } := by
    refine ⟨v, List.mem_cons_of_mem _ ?_, by rw [heq]⟩
    simp only [Function.update_self, List.mem_append, List.mem_singleton, or_true]
  exact htold.update_silent { s.nodes i with router := { (s.nodes i).router with
    nodeEndpoint := { (s.nodes i).router.nodeEndpoint with address := .v4 v } } } (hs.egress i)
    { htold.nodes i with endpoint := hown }

theorem grows_run {es : List (Event ι)} (h : Runs.run (step configs) s es = some s') : s.Grows s' :=
  Runs.invariant (fun _ _ _ ht h => ht.trans (grows_step h)) es (.refl s) h

/-- **A run of the network** keeps the invariant, while the hashes do not collide. -/
theorem Inv.run (hs : s.Inv configs) (hc : c.SecpLaws) (hr : c.rlp.Lawful) (hl : c.rlp.ListLaws)
    (hR : c.rlp.SizeLaws) {es : List (Event ι)} (h : Runs.run (step configs) s es = some s')
    (hfree : CollisionFree c s'.pool) : s'.Inv configs := by
  induction es generalizing s with
  | nil =>
    cases h
    exact hs
  | cons e es ih =>
    have hfree' : CollisionFree c s.pool := hfree.mono (grows_run h).pool
    obtain ⟨s₁, h₁, h⟩ := Option.bind_eq_some_iff.1 h
    refine ih ?_ h
    cases e with
    | node i e =>
      obtain ⟨hallowed, h₁⟩ := Option.ite_none_right_eq_some.1 h₁
      obtain ⟨node, hnode, rfl⟩ := Option.map_eq_some_iff.1 h₁
      exact hs.node hfree' hc hr hl hR hallowed hnode
    | upnp i v => exact hs.upnp i v h₁

/-- **The nodes of a network know and say what is so**, while the hashes of what they send do not collide; and lookups
find what is so: from the tables of a run, with the answers that lookups are told later in the run. -/
theorem network_truthful (hc : c.SecpLaws) (hr : c.rlp.Lawful) (hl : c.rlp.ListLaws) (hR : c.rlp.SizeLaws)
    (configs : ι → Config c) {es₁ es₂ : List (Event ι)} {s₁ s₂ : Network ι}
    (h₁ : Runs.run (step configs) (start configs) es₁ = some s₁) (h₂ : Runs.run (step configs) s₁ es₂ = some s₂)
    (hfree : CollisionFree c s₂.pool) : s₂.Truthful configs ∧
      ∀ i target answers, (∀ lookupRound d messages, answers lookupRound d = some messages →
        ∀ m ∈ messages, ∃ cb, .neighbours cb m ∈ (s₂.nodes i).router.signals) →
      ∃ l, lookupInner c.keccak256 (s₁.nodes i).router.connected target answers = some l ∧
        (∀ n ∈ l.result, s₂.Named configs n) ∧ ∀ q ∈ l.asked, s₂.Named configs q.record := by
  have hgrows := grows_run h₂
  have hs₁ := (start_inv configs).run hc hr hl hR h₁ (hfree.mono hgrows.pool)
  have hs₂ := hs₁.run hc hr hl hR h₂ hfree
  refine ⟨hs₂.truthful, fun i target answers hanswers => ?_⟩
  refine Lookup.lookupInner_holds (hgrows.upholds (hs₁.nodes i)).table fun lookupRound d messages ha m hm => ?_
  obtain ⟨cb, hcb⟩ := hanswers lookupRound d messages ha m hm
  exact (hs₂.nodes i).told cb m hcb

end

/-! ## Two nodes -/

section Example

open Node

/-- Two nodes, whose TCP ports are not their UDP ports. -/
def twoNodes (i : Bool) : Config tabulated where
  secretKey := if i then askerKey else nodeKey
  ip := FixedBytes.ofNat 4 0x7f000001
  port := if i then 30303 else 30305
  tcpPort := 30304
  publicAddress := none
  enableUpnp := false
  bootstrapNodes := []

/-- A ping of the one to the other. -/
def pingOther : PingMessage := ⟨(twoNodes true).nodeEndpoint, (twoNodes false).nodeEndpoint, 1⟩

def pingDatagram : Bytes := (EgressMessage.ping pingOther).datagram tabulated askerKey

/-- The ping is sent. -/
theorem run_ping : ∃ s, Runs.run (step twoNodes) (start twoNodes)
    [.node true (.ping askAddr (twoNodes false).id pingOther)] = some s ∧ s.pool = [pingDatagram] ∧
      (s.nodes false).egress = .idle := by
  have hid : (twoNodes false).id ≠ ownId tabulated (twoNodes true).secretKey := by decide +kernel
  refine ⟨_, rfl, ?_, rfl⟩
  change [] ++ Egress.datagram (Routers.serve _ _ _ _ _ _ _).egress = _
  unfold Routers.serve
  rw [if_neg hid]
  rfl

/-- The other node gets it. -/
theorem run_receive {s : Network Bool} (h : s.pool = [pingDatagram]) (hidle : (s.nodes false).egress = .idle) :
    ∃ s', Runs.run (step twoNodes) s [.node false (.receive askAddr pingDatagram)] = some s' ∧
      s'.pool = [pingDatagram] := by
  have hallowed : s.Allowed false (.receive askAddr pingDatagram) := by
    rw [Allowed, h]
    exact List.mem_singleton_self _
  refine ⟨_, congrArg (Option.bind · (Runs.run (step twoNodes) · [])) (if_pos hallowed), ?_⟩
  change s.pool ++ (s.nodes false).egress.datagram = _
  rw [h, hidle]
  rfl

/-- The hash of the ping alone does not collide. -/
theorem pingDatagram_free : CollisionFree tabulated [pingDatagram] := by
  have htake : pingDatagram.take maxPacketSize = pingDatagram :=
    List.take_of_length_le (length_ping_datagram_le Rlp.standard_sizeLaws askerKey pingOther)
  have hmem : ∀ x ∈ hashed [pingDatagram], x = pingDatagram.drop 32 := by simp [hashed, htake]
  exact fun x hx y hy _ => (hmem x hx).trans (hmem y hy).symm

theorem twoNodes_truthful : ∃ s₁ s₂, Runs.run (step twoNodes) (start twoNodes)
      [.node true (.ping askAddr (twoNodes false).id pingOther)] = some s₁ ∧
    Runs.run (step twoNodes) s₁ [.node false (.receive askAddr pingDatagram)] = some s₂ ∧ s₂.Truthful twoNodes := by
  obtain ⟨s₁, h₁, hpool₁, hidle⟩ := run_ping
  obtain ⟨s₂, h₂, hpool₂⟩ := run_receive hpool₁ hidle
  refine ⟨s₁, s₂, h₁, h₂, ?_⟩
  exact (network_truthful tabulated_secpLaws Rlp.standard_lawful Rlp.standard_listLaws Rlp.standard_sizeLaws twoNodes h₁
    h₂ (hpool₂ ▸ pingDatagram_free)).1

end Example

end Network

end Discv4

end EthereumSentry
