import EthereumSentry.Discv4.PacketSize
import EthereumSentry.Discv4.RoundTrip
import EthereumSentry.Discv4.Structure

/-!
# The answers to queries

A query names a target, and is to be answered with the records of the table that are closest to it (`Closest`). The
ingress router answers with the bucket of the node that asks, whatever the target is. This node is in its bucket, so the
answer always has room left, and is what it is to be exactly when the table has no records in other buckets
(`answersClosest_iff`).
-/

set_option autoImplicit false

namespace EthereumSentry

namespace Discv4

namespace Table

variable {keccak256 : Bytes → H256} {t : Table}

/-- Records of other nodes than the one that asks. A record is left out of a full answer only, and only when no record
of the answer is farther from the target. -/
structure Closest (keccak256 : Bytes → H256) (t : Table) (requester target : NodeId) (nodes : List NodeRecord) :
    Prop where
  known : ∀ node ∈ nodes, node ∈ t.records ∧ node.id ≠ requester
  closest : ∀ m ∈ t.records, m.id ≠ requester → m ∉ nodes → bucketSize ≤ nodes.length ∧
    ∀ node ∈ nodes, (distance keccak256 node.id target).toNat ≤ (distance keccak256 m.id target).toNat

/-- An answer with room left has to have all records. -/
theorem closest_iff_of_lt {requester target : NodeId} {nodes : List NodeRecord} (hlen : nodes.length < bucketSize) :
    t.Closest keccak256 requester target nodes ↔ (∀ node ∈ nodes, node ∈ t.records ∧ node.id ≠ requester) ∧
      ∀ m ∈ t.records, m.id ≠ requester → m ∈ nodes := by
  constructor
  · intro h
    refine ⟨h.known, fun m hm hne => ?_⟩
    by_contra hout
    exact absurd (h.closest m hm hne hout).1 (Nat.not_le.2 hlen)
  · rintro ⟨hknown, hall⟩
    exact ⟨hknown, fun m hm hne hout => absurd (hall m hm hne) hout⟩

/-- The records of a bucket are those of its logarithmic distance. -/
theorem Ordered.mem_bucket_iff (ht : t.Ordered keccak256) {i : Fin addressBits} {node : NodeRecord} :
    node ∈ (t.kbucket i).bucket ↔ node ∈ t.records ∧ t.logdistance keccak256 node.id = some i := by
  rw [mem_records]
  constructor
  · intro h
    exact ⟨⟨i, h⟩, (ht.belongs i node (List.mem_append_left _ h)).2⟩
  · rintro ⟨⟨j, h⟩, hi⟩
    have hj := (ht.belongs j node (List.mem_append_left _ h)).2
    obtain rfl : j = i := Option.some.inj (hj.symm.trans hi)
    exact h

/-- The bucket of a peer that is found, and its neighbours there. -/
theorem exists_bucket_of_get {peer : NodeId} (h : (t.get keccak256 peer).isSome) :
    ∃ i : Fin addressBits, t.logdistance keccak256 peer = some i ∧ ((t.kbucket i).get peer).isSome ∧
      t.neighbours keccak256 peer = some ((t.kbucket i).neighbours peer) := by
  cases hi : t.logdistance keccak256 peer with
  | none => simp [get, bucket, hi] at h
  | some i =>
    simp only [get, bucket, hi, Option.map_some, Option.bind_some] at h
    exact ⟨i, rfl, h, by simp only [neighbours, bucket, hi, Option.map_some]⟩

/-- **The neighbours of a node that is found** are all records exactly when all records are in its bucket. -/
theorem Ordered.closest_iff (ht : t.Ordered keccak256) {requester target : NodeId} {nodes : List NodeRecord}
    (hfound : (t.get keccak256 requester).isSome) (hn : t.neighbours keccak256 requester = some nodes) :
    t.Closest keccak256 requester target nodes ↔ ∀ m ∈ t.records, m.id ≠ requester →
      t.logdistance keccak256 m.id = t.logdistance keccak256 requester := by
  obtain ⟨i, hi, hget, hi'⟩ := exists_bucket_of_get hfound
  obtain rfl : (t.kbucket i).neighbours requester = nodes := Option.some.inj (hi'.symm.trans hn)
  have hmem : ∀ m, m ∈ (t.kbucket i).neighbours requester ↔
      (m ∈ t.records ∧ t.logdistance keccak256 m.id = some i) ∧ m.id ≠ requester := fun m => by
    rw [((ht.bounded i).neighbours_eq requester).2, List.mem_filter, ht.mem_bucket_iff]
    simp [ne_comm]
  rw [closest_iff_of_lt (KBucket.length_neighbours_lt (ht.bounded i) hget), hi]
  constructor
  · rintro ⟨-, hall⟩ m hm hne
    exact ((hmem m).1 (hall m hm hne)).1.2
  · intro h
    exact ⟨fun m hm => ⟨((hmem m).1 hm).1.1, ((hmem m).1 hm).2⟩, fun m hm hne => (hmem m).2 ⟨⟨hm, h m hm hne⟩, hne⟩⟩

/-- Nodes that are verified one after the other. -/
theorem run_addVerified (nodes : List NodeRecord) : ∀ t : Table,
    Runs.run (step keccak256) t (nodes.map .addVerified) = some (nodes.foldl (·.addVerified keccak256) t) := by
  induction nodes with
  | nil => exact fun _ => rfl
  | cons node nodes ih => exact fun t => ih (t.addVerified keccak256 node)

end Table

namespace Node

/-- The query is answered with the records that are closest to its target. -/
def AnswersClosest (c : Crates) (sk : c.SecretKey) (n : Node) (addr : SocketAddr) (buf : Bytes) (id : NodeId)
    (message : FindNodeMessage) : Prop :=
  ∃ nodes, n.receive c sk addr buf = .ok (n.request addr id (.neighbours ⟨nodes, message.expire⟩)) ∧
    n.connected.Closest c.keccak256 id message.id nodes

variable {c : Crates} {sk : c.SecretKey} {n : Node} {addr : SocketAddr} {buf : Bytes} {id : NodeId}
  {message : FindNodeMessage}

/-- The table of a node that has just started. -/
theorem run_new (bootstrapNodes : List NodeRecord) :
    Runs.run (Table.step c.keccak256) (Table.new c.keccak256 (ownId c sk)) (bootstrapNodes.map .addVerified) =
      some (new c sk bootstrapNodes).connected := Table.run_addVerified bootstrapNodes _

/-- The answer is the one with the neighbours of the node that asks. -/
theorem answersClosest_iff_neighbours (hasks : n.Asks c sk addr buf id message) :
    n.AnswersClosest c sk addr buf id message ↔ ∃ nodes, n.connected.neighbours c.keccak256 id = some nodes ∧
      n.connected.Closest c.keccak256 id message.id nodes := by
  obtain ⟨nodes, hn, hr⟩ := receive_of_asks hasks
  constructor
  · rintro ⟨nodes', hr', hc⟩
    rw [hr, Except.ok.injEq] at hr'
    have hq := congrArg Node.egressRequests hr'
    simp only [request, List.append_cancel_left_eq, List.cons.injEq, Prod.mk.injEq, EgressMessage.neighbours.injEq,
      NeighboursMessage.mk.injEq, true_and, and_true] at hq
    exact ⟨nodes', hq ▸ hn, hc⟩
  · rintro ⟨nodes', hn', hc⟩
    rw [hn, Option.some.injEq] at hn'
    exact ⟨nodes', hn' ▸ hr, hc⟩

/-- **The closest nodes**: whatever operations made the table, a query of a node that is found is answered with the
records that are closest to the target exactly when all other records are in the bucket of the node that asks. -/
theorem answersClosest_iff (c : Crates) (sk : c.SecretKey) (tableId : NodeId) (ops : List Table.Op)
    (hops : Runs.run (Table.step c.keccak256) (Table.new c.keccak256 tableId) ops = some n.connected)
    (hasks : n.Asks c sk addr buf id message) :
    n.AnswersClosest c sk addr buf id message ↔ ∀ m ∈ n.connected.records, m.id ≠ id →
      n.connected.logdistance c.keccak256 m.id = n.connected.logdistance c.keccak256 id := by
  have ht := (Table.run_ordered tableId ops hops).2
  obtain ⟨nodes, hn, -⟩ := receive_of_asks hasks
  rw [answersClosest_iff_neighbours hasks]
  constructor
  · rintro ⟨nodes', hn', hc⟩
    exact (ht.closest_iff hasks.found hn').1 hc
  · intro h
    exact ⟨nodes, hn, (ht.closest_iff hasks.found hn).2 h⟩

/-! ## A node that is left out -/

section Example

open Software

theorem found_asks {bootstrapNodes : List NodeRecord}
    (h : ((new tabulated nodeKey bootstrapNodes).connected.get tabulated.keccak256 (ownId tabulated askerKey)).isSome) :
    (new tabulated nodeKey bootstrapNodes).Asks tabulated nodeKey askAddr (query.datagram tabulated askerKey)
      (ownId tabulated askerKey) ⟨ownId tabulated nodeKey, 1⟩ where
  ipv4 := rfl
  opened := ⟨_, openDatagram_datagram tabulated_secpLaws askerKey query, rfl, MessageId.fromU8_toU8 .findNode,
    FindNodeMessage.decode_encode Rlp.standard_lawful Rlp.standard_listLaws (by decide +kernel)⟩
  foreign := by decide +kernel
  found := h

/-- The answer to the query, in a table with a single bucket in use. -/
theorem fullBucket_closest : (new tabulated nodeKey fullBucket).AnswersClosest tabulated nodeKey askAddr
    (query.datagram tabulated askerKey) (ownId tabulated askerKey) ⟨ownId tabulated nodeKey, 1⟩ ↔
      ∀ m ∈ (new tabulated nodeKey fullBucket).connected.records, m.id ≠ ownId tabulated askerKey →
        (new tabulated nodeKey fullBucket).connected.logdistance tabulated.keccak256 m.id =
          (new tabulated nodeKey fullBucket).connected.logdistance tabulated.keccak256 (ownId tabulated askerKey) :=
  answersClosest_iff tabulated nodeKey (ownId tabulated nodeKey) (fullBucket.map .addVerified)
    (run_new fullBucket) (found_asks (by decide +kernel))

/-- The node that asks, and one node in another bucket. -/
def twoBuckets : List NodeRecord := [{ Table.sampleNode 0 with id := ownId tabulated askerKey }, Table.sampleNode 0]

/-- The answer is empty, and the other node is left out. -/
theorem twoBuckets_neighbours : let t := (new tabulated nodeKey twoBuckets).connected
    t.neighbours tabulated.keccak256 (ownId tabulated askerKey) = some [] ∧ Table.sampleNode 0 ∈ t.records ∧
      (t.get tabulated.keccak256 (ownId tabulated askerKey)).isSome := by
  decide +kernel

theorem answer_not_closest : ¬∀ (ops : List Table.Op) (n : Node) (addr : SocketAddr) (buf : Bytes) (id : NodeId)
    (message : FindNodeMessage), Runs.run (Table.step tabulated.keccak256)
      (Table.new tabulated.keccak256 (ownId tabulated nodeKey)) ops = some n.connected →
    n.Asks tabulated nodeKey addr buf id message → n.AnswersClosest tabulated nodeKey addr buf id message := by
  intro h
  obtain ⟨hn, hmem, hfound⟩ := twoBuckets_neighbours
  have hasks := found_asks hfound
  have hclosest := h (twoBuckets.map .addVerified) _ _ _ _ _ (run_new twoBuckets) hasks
  obtain ⟨nodes, hnodes, hc⟩ := (answersClosest_iff_neighbours hasks).1 hclosest
  obtain rfl : [] = nodes := Option.some.inj (hn.symm.trans hnodes)
  have hne : (Table.sampleNode 0).id ≠ ownId tabulated askerKey := by decide +kernel
  exact absurd (hc.closest _ hmem hne List.not_mem_nil).1 (by decide)

end Example

end Node

end Discv4

end EthereumSentry
