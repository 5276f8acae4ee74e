import EthereumSentry.Discv4.InflightPings
import EthereumSentry.Discv4.Structure

/-!
# The oldest node pinger

The pinger asks for a ping of the oldest record in a filled bucket. A ping of another node has its record replaced when
nothing answers it (`evicts_of_foreign`). But the pinger passes the id of the node itself as that of the peer, and the
egress router drops what is for itself, so no record is ever replaced because of the pinger (`pingOldest_never_evicts`).
-/

set_option autoImplicit false

namespace EthereumSentry

namespace Discv4

/-- `NodeRecord::udp_addr`. -/
def NodeRecord.udpAddr (n : NodeRecord) : SocketAddr := ⟨n.address, n.udpPort⟩

namespace Routers

section

variable (c : Crates) (sk : c.SecretKey)

/-- What the pinger asks for, in a bucket. The outer `none` is an index out of range. -/
def pingOldest (s : Routers) (bucketNo : UInt8) (expire : UInt64) : Option (Option (SocketAddr × NodeId × PingMessage)) :=
  (s.router.connected.oldest bucketNo).map fun oldest => oldest.map fun node =>
    (node.udpAddr, Node.ownId c sk, ⟨s.router.nodeEndpoint, node.endpoint, expire⟩)

/-- A ping with the hash no longer waits. -/
def Ends (hash : H256) : Event → Prop
  | .receive addr datagram => ∃ signer, pongOf c sk addr (datagram.take maxPacketSize) = some (signer, hash)
  | .timeout hash' _ => hash' = hash
  | _ => False

/-- The ping is in flight and handed to the socket, for the node of the record. If nothing answers it until its timeout
runs, the node is removed from the table. -/
def Evicts (s : Routers) (node : NodeRecord) (addr : SocketAddr) (peer : NodeId) (message : PingMessage) : Prop :=
  ∃ s₁ hash, s.step c sk (.ping addr peer message) = some s₁ ∧
    s₁.egress = .sending node.udpAddr ((EgressMessage.ping message).datagram c sk) (some (hash, node.id)) ∧
    (s₁.router.inflightPingRequests hash).isSome ∧
    ∀ es s₂ s₃, Runs.run (step c sk) s₁ es = some s₂ → (∀ e ∈ es, ¬Ends c sk hash e) →
      s₂.step c sk (.timeout hash node.id) = some s₃ →
        s₃.router.connected = s₂.router.connected.remove c.keccak256 node.id

/-- What the pinger asks for in a bucket evicts the oldest record. -/
def EvictsOldest (s : Routers) (bucketNo : UInt8) (expire : UInt64) : Prop :=
  ∃ node addr peer message, s.router.connected.oldest bucketNo = some (some node) ∧
    s.pingOldest c sk bucketNo expire = some (some (addr, peer, message)) ∧ s.Evicts c sk node addr peer message

end

variable {c : Crates} {sk : c.SecretKey} {s s' : Routers}

/-! ## Pings of other nodes -/

/-- What is in flight stays in flight until it ends. -/
theorem isSome_of_step {hash : H256} (hs : (s.router.inflightPingRequests hash).isSome) {e : Event}
    (he : ¬Ends c sk hash e) (h : s.step c sk e = some s') : (s'.router.inflightPingRequests hash).isSome := by
  have hspec := act_spec c sk e
  refine Inflight.State.isSome_waiting_of_step (pings_step h) hs (fun hact => ?_) fun peer hact => ?_
  · rw [hact] at hspec
    obtain ⟨addr, datagram, signer, rfl, hp⟩ := hspec
    exact he ⟨signer, hp⟩
  · rw [hact] at hspec
    subst hspec
    exact he rfl

/-- **A ping of another node evicts it** when it is not in flight already. -/
theorem evicts_of_foreign (hidle : s.egress = .idle) (node : NodeRecord) (message : PingMessage)
    (hid : node.id ≠ Node.ownId c sk)
    (hnew : s.router.inflightPingRequests ((EgressMessage.ping message).hash c sk) = none) :
    s.Evicts c sk node node.udpAddr node.id message := by
  obtain ⟨s₁, h₁, hping⟩ := step_ping hidle node.udpAddr message hid hnew
  have hsome := Option.isSome_of_eq_some hping.inflight
  refine ⟨s₁, _, h₁, hping.egress, hsome, fun es s₂ s₃ h₂ hes h₃ => ?_⟩
  have halong : Runs.Along (step c sk) (fun _ e => ¬Ends c sk _ e) s₁ es := Runs.Along.of_mem fun e he _ => hes e he
  have hs₂ := Runs.Along.invariant (fun _ _ _ hs he h => isSome_of_step hs he h) es halong hsome h₂
  obtain ⟨-, h₃⟩ := Option.ite_none_right_eq_some.1 h₃
  cases h₃
  rw [timeout, if_pos hs₂]

/-! ## Pings of the pinger -/

/-- A ping for the node itself is dropped. -/
theorem egress_of_own {addr : SocketAddr} {message : PingMessage}
    (h : s.step c sk (.ping addr (Node.ownId c sk) message) = some s') : s'.egress = .idle := by
  obtain ⟨hidle, h⟩ := Option.ite_none_right_eq_some.1 h
  cases h
  rw [serve, if_pos rfl]
  exact hidle

theorem not_evictsOldest (s : Routers) (bucketNo : UInt8) (expire : UInt64) : ¬s.EvictsOldest c sk bucketNo expire := by
  rintro ⟨node, addr, peer, message, holdest, hping, s₁, hash, h₁, hsending, -⟩
  simp only [pingOldest, holdest, Option.map_some, Option.some.injEq, Prod.mk.injEq] at hping
  obtain ⟨-, rfl, -⟩ := hping
  rw [egress_of_own h₁] at hsending
  cases hsending

/-- **The pinger evicts nothing**: in every state, and for every filled bucket, it asks for a ping of the oldest record,
which is dropped. -/
theorem pingOldest_never_evicts (c : Crates) (sk : c.SecretKey) (s : Routers) (bucketNo : UInt8) (expire : UInt64)
    {filled : List UInt8} (hfilled : s.router.connected.filledBuckets = some filled) (hmem : bucketNo ∈ filled) :
    (∃ node request, s.router.connected.oldest bucketNo = some (some node) ∧
      s.pingOldest c sk bucketNo expire = some (some request)) ∧ ¬s.EvictsOldest c sk bucketNo expire := by
  refine ⟨?_, not_evictsOldest s bucketNo expire⟩
  obtain ⟨l, hl, hfull⟩ := Table.filledBuckets_eq s.router.connected
  obtain rfl : filled = l := Option.some.inj (hfilled.symm.trans hl)
  have hlen := (hfull bucketNo).1 hmem
  have holdest := Table.oldest_eq s.router.connected bucketNo
  generalize (s.router.connected.kbucket (Table.bucketIndex bucketNo)).bucket = b at *
  cases hb : b.getLast? with
  | none =>
    rw [List.getLast?_eq_none_iff.1 hb] at hlen
    exact absurd hlen (by decide)
  | some node =>
    rw [hb] at holdest
    exact ⟨node, _, holdest, by rw [pingOldest, holdest]; rfl⟩

section Example

open Software

/-- A node with a filled bucket. -/
def fullRouters : Routers := new Node.tabulated Node.nodeKey Node.fullBucket sampleEndpoint

theorem fullRouters_filled : fullRouters.router.connected.filledBuckets = some [255] := by
  decide +kernel

theorem fullRouters_never_evicts :
    (∃ node request, fullRouters.router.connected.oldest 255 = some (some node) ∧
      fullRouters.pingOldest Node.tabulated Node.nodeKey 255 1 = some (some request)) ∧
    ¬fullRouters.EvictsOldest Node.tabulated Node.nodeKey 255 1 :=
  pingOldest_never_evicts Node.tabulated Node.nodeKey fullRouters 255 1 fullRouters_filled (by decide)

/-- The oldest of the 16 records stays. -/
theorem oldest_not_evicted : ¬∀ (s : Routers) (bucketNo : UInt8) (expire : UInt64) (filled : List UInt8),
    s.router.connected.filledBuckets = some filled → bucketNo ∈ filled →
      s.EvictsOldest Node.tabulated Node.nodeKey bucketNo expire :=
  fun h => not_evictsOldest fullRouters 255 1 (h fullRouters 255 1 [255] fullRouters_filled (by decide))

end Example

end Routers

end Discv4

end EthereumSentry
