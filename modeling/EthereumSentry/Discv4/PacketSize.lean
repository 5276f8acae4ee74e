import EthereumSentry.Devp2p.Software
import EthereumSentry.Discv4.Node
import EthereumSentry.Discv4.Unique
import EthereumSentry.Lib.RlpSize

/-!
# Sizes of datagrams

A receiver reads `maxPacketSize` bytes of a datagram, and cuts off the rest. Nothing compares a message with this limit;
all messages but one kind are small (`Fits`). Neighbours are the records of a bucket but that of the node that asks, so
there are at most 15 of them (`Bounded`), and only 15 records whose ports are long enough are too long (`fits_iff`).
`arrives_iff` says of every request in a run of the node that its datagram arrives whole exactly when it fits.
-/

set_option autoImplicit false

namespace EthereumSentry

namespace Discv4

open Rlp (Codec headerLength uintLength headerLength_le headerLength_of_le headerLength_of_lt headerLength_of_le_of_lt
  uintLength_le one_le_uintLength)

/-- The bytes that the ports of a record take. -/
def NodeRecord.portsLength (n : NodeRecord) : Nat := uintLength n.udpPort.toNat + uintLength n.tcpPort.toNat

def portsLength (nodes : List NodeRecord) : Nat := (nodes.map NodeRecord.portsLength).sum

/-- Neighbours fit when there are fewer than 15, or when their ports and the expiry take at most 81 bytes. Every other
message fits. -/
def Fits : EgressMessage → Prop
  | .neighbours m => m.nodes.length < 15 ∨ portsLength m.nodes + uintLength m.expire.toNat ≤ 81
  | _ => True

/-! ## Lengths of messages -/

theorem uintLength_port_le (p : UInt16) : uintLength p.toNat ≤ 3 := uintLength_le (k := 2) p.toNat_lt

theorem uintLength_expire_le (x : UInt64) : uintLength x.toNat ≤ 9 := uintLength_le (k := 8) x.toNat_lt

theorem NodeRecord.le_portsLength (n : NodeRecord) : 2 ≤ n.portsLength :=
  Nat.add_le_add (one_le_uintLength _) (one_le_uintLength _)

theorem NodeRecord.portsLength_le (n : NodeRecord) : n.portsLength ≤ 6 :=
  Nat.add_le_add (uintLength_port_le _) (uintLength_port_le _)

theorem portsLength_bounds (nodes : List NodeRecord) :
    2 * nodes.length ≤ portsLength nodes ∧ portsLength nodes ≤ 6 * nodes.length := by
  induction nodes with
  | nil => simp [portsLength]
  | cons n nodes ih =>
    have h₁ := n.le_portsLength
    have h₂ := n.portsLength_le
    simp only [portsLength, List.map_cons, List.sum_cons, List.length_cons] at ih ⊢
    omega

theorem length_octets (a : IpAddr) : a.octets.length = if a.isIpv6 then 16 else 4 := by
  cases a <;> simp [IpAddr.octets, IpAddr.isIpv6]

section Lengths

variable {R : Codec}

theorem length_encode_octets (hR : R.SizeLaws) (a : IpAddr) :
    (R.encodeBytes a.octets).length = if a.isIpv6 then 17 else 5 := by
  have h := length_octets a
  rw [hR.length_bytes _ (by rw [h]; split <;> decide) (by rw [h]; split <;> decide), h]
  split <;> rfl

theorem length_encode_id (hR : R.SizeLaws) (id : NodeId) : (R.encodeBytes id.bytes).length = 66 := by
  rw [hR.length_bytes _ (by simp) (by simp), FixedBytes.length_bytes, headerLength_of_lt (by decide) (by decide)]

theorem length_encode_port (hR : R.SizeLaws) (p : UInt16) : (R.encodeUint p.toNat).length = uintLength p.toNat :=
  hR.length_uint _ (p.toNat_lt.trans (by decide))

theorem length_encode_expire (hR : R.SizeLaws) (x : UInt64) : (R.encodeUint x.toNat).length = uintLength x.toNat :=
  hR.length_uint _ x.toNat_lt

/-- A record takes 73 bytes and its ports. -/
theorem length_encode_record (hR : R.SizeLaws) {n : NodeRecord} (h : n.address.isIpv6 = false) :
    (n.encode R).length = 73 + n.portsLength := by
  have hlen : [R.encodeBytes n.address.octets, R.encodeUint n.udpPort.toNat, R.encodeUint n.tcpPort.toNat,
      R.encodeBytes n.id.bytes].flatten.length = 71 + n.portsLength := by
    simp only [List.flatten_cons, List.flatten_nil, List.length_append, List.length_nil, length_encode_octets hR, h,
      length_encode_port hR, length_encode_id hR, NodeRecord.portsLength, Bool.false_eq_true, if_false]
    omega
  have hle := n.portsLength_le
  rw [NodeRecord.encode, hR.length_list _ (by omega), hlen, headerLength_of_lt (by omega) (by omega)]
  omega

theorem length_encode_records (hR : R.SizeLaws) {nodes : List NodeRecord}
    (h : ∀ n ∈ nodes, n.address.isIpv6 = false) :
    (nodes.map (·.encode R)).flatten.length = 73 * nodes.length + portsLength nodes := by
  induction nodes with
  | nil => rfl
  | cons n nodes ih =>
    have ih := ih fun m hm => h m (List.mem_cons_of_mem _ hm)
    simp only [List.map_cons, List.flatten_cons, List.length_append, ih,
      length_encode_record hR (h n List.mem_cons_self), portsLength, List.sum_cons, List.length_cons]
    omega

theorem length_encode_endpoint_le (hR : R.SizeLaws) (e : Endpoint) : (e.encode R).length ≤ 24 := by
  have hlen : [R.encodeBytes e.address.octets, R.encodeUint e.udpPort.toNat,
      R.encodeUint e.tcpPort.toNat].flatten.length ≤ 23 := by
    have hu := uintLength_port_le e.udpPort
    have ht := uintLength_port_le e.tcpPort
    have ha : (R.encodeBytes e.address.octets).length ≤ 17 := by
      rw [length_encode_octets hR]
      split <;> decide
    simp only [List.flatten_cons, List.flatten_nil, List.length_append, List.length_nil, length_encode_port hR]
    omega
  rw [Endpoint.encode, hR.length_list _ (by omega), headerLength_of_le (by omega)]
  omega

/-- Short lists have short headers. -/
theorem length_encodeList_le (hR : R.SizeLaws) {xs : List Bytes} {k : Nat} (h : xs.flatten.length ≤ k) (hk : k < 256) :
    (R.encodeList xs).length ≤ 2 + k := by
  have := headerLength_le (n := xs.flatten.length) (k := 1) (by omega)
  rw [hR.length_list _ (by omega)]
  omega

theorem length_encode_ping_le (hR : R.SizeLaws) (m : PingMessage) : (m.encode R).length ≤ 60 := by
  refine length_encodeList_le hR (k := 58) ?_ (by decide)
  have h₁ := length_encode_endpoint_le hR m.fromEndpoint
  have h₂ := length_encode_endpoint_le hR m.toEndpoint
  have h₃ := uintLength_expire_le m.expire
  have h₄ : (R.encodeUint 4).length = 1 := hR.length_uint 4 (by decide)
  simp only [List.flatten_cons, List.flatten_nil, List.length_append, List.length_nil, length_encode_expire hR]
  omega

theorem length_encode_pong_le (hR : R.SizeLaws) (m : PongMessage) : (m.encode R).length ≤ 68 := by
  refine length_encodeList_le hR (k := 66) ?_ (by decide)
  have h₁ := length_encode_endpoint_le hR m.toEndpoint
  have h₂ := uintLength_expire_le m.expire
  have h₃ : (R.encodeBytes m.echo.bytes).length = 33 := by
    rw [hR.length_bytes _ (by simp) (by simp), FixedBytes.length_bytes, headerLength_of_le (by decide)]
  simp only [List.flatten_cons, List.flatten_nil, List.length_append, List.length_nil, length_encode_expire hR]
  omega

theorem length_encode_findNode_le (hR : R.SizeLaws) (m : FindNodeMessage) : (m.encode R).length ≤ 77 := by
  refine length_encodeList_le hR (k := 75) ?_ (by decide)
  have h := uintLength_expire_le m.expire
  simp only [List.flatten_cons, List.flatten_nil, List.length_append, List.length_nil, length_encode_expire hR,
    length_encode_id hR]
  omega

/-- **The length of neighbours**: a list of records and an expiry, each list with its header. -/
theorem length_encode_neighbours (hR : R.SizeLaws) {m : NeighboursMessage} (hlen : m.nodes.length ≤ 15)
    (h : ∀ n ∈ m.nodes, n.address.isIpv6 = false) :
    let records := 73 * m.nodes.length + portsLength m.nodes
    let payload := headerLength records + records + uintLength m.expire.toNat
    (m.encode R).length = headerLength payload + payload := by
  have hports := (portsLength_bounds m.nodes).2
  have hexpire := uintLength_expire_le m.expire
  have hrecords := length_encode_records hR h
  have hheader := headerLength_le (n := 73 * m.nodes.length + portsLength m.nodes) (k := 2) (by omega)
  have hlist : (R.encodeList (m.nodes.map (·.encode R))).length =
      headerLength (73 * m.nodes.length + portsLength m.nodes) + (73 * m.nodes.length + portsLength m.nodes) := by
    rw [hR.length_list _ (by omega), hrecords]
  have hpayload : [R.encodeList (m.nodes.map (·.encode R)), R.encodeUint m.expire.toNat].flatten.length =
      headerLength (73 * m.nodes.length + portsLength m.nodes) + (73 * m.nodes.length + portsLength m.nodes) +
        uintLength m.expire.toNat := by
    simp only [List.flatten_cons, List.flatten_nil, List.length_append, List.length_nil, length_encode_expire hR, hlist]
    omega
  simp only
  rw [NeighboursMessage.encode, hR.length_list _ (by omega), hpayload]

/-- **The largest neighbours**: fewer than 15 records fit; 15 records are 1199 bytes, their ports and the expiry. -/
theorem neighbours_fit_iff (hR : R.SizeLaws) {m : NeighboursMessage} (hlen : m.nodes.length ≤ 15)
    (h : ∀ n ∈ m.nodes, n.address.isIpv6 = false) :
    98 + (m.encode R).length ≤ maxPacketSize ↔
      m.nodes.length < 15 ∨ portsLength m.nodes + uintLength m.expire.toNat ≤ 81 := by
  obtain ⟨hp₁, hp₂⟩ := portsLength_bounds m.nodes
  have he₁ := one_le_uintLength m.expire.toNat
  have he₂ := uintLength_expire_le m.expire
  rw [length_encode_neighbours hR hlen h, maxPacketSize]
  rcases Nat.lt_or_eq_of_le hlen with hlt | heq
  · have h₁ := headerLength_le (n := 73 * m.nodes.length + portsLength m.nodes) (k := 2) (by omega)
    have h₂ := headerLength_le (n := headerLength (73 * m.nodes.length + portsLength m.nodes) +
      (73 * m.nodes.length + portsLength m.nodes) + uintLength m.expire.toNat) (k := 2) (by omega)
    exact iff_of_true (by omega) (.inl hlt)
  · rw [heq] at hp₁ hp₂ ⊢
    rw [headerLength_of_le_of_lt (n := 73 * 15 + portsLength m.nodes) (by omega) (by omega),
      headerLength_of_le_of_lt (by omega) (by omega)]
    omega

end Lengths

/-! ## Requests in runs -/

namespace Node

variable {c : Crates} {sk : c.SecretKey} {n n' : Node}

/-- Where the records come from: bounded buckets, of addresses of four octets. -/
structure Sized (n : Node) : Prop where
  bounded : n.connected.Bounded
  ipv4 : n.connected.Holds (·.address.isIpv6 = false)
  queued : ∀ addr id m, (addr, id, .neighbours m) ∈ n.egressRequests →
    m.nodes.length < bucketSize ∧ ∀ node ∈ m.nodes, node.address.isIpv6 = false

theorem new_sized (bootstrapNodes : List NodeRecord) : (new c sk bootstrapNodes).Sized where
  bounded := List.foldlRecOn bootstrapNodes _ (Table.new_bounded _) fun _ ht node _ => Table.addVerified_bounded ht node
  ipv4 := List.foldlRecOn (motive := fun t : Table => t.Holds (·.address.isIpv6 = false)) bootstrapNodes _
    (Table.new_holds _) fun _ ht _ _ => Table.addVerified_holds ht id
  queued := by simp [new]

theorem step_sized {e : Event} (hn : n.Sized) (h : n.step c sk e = some n') : n'.Sized where
  bounded := step_connected (Q := Table.Bounded) h (fun _ node _ ht => Table.addVerified_bounded ht node)
    (fun _ node _ ht => Table.addSeen_bounded ht node) (fun _ peer ht => Table.remove_bounded ht peer) hn.bounded
  ipv4 := step_connected (Q := (·.Holds (·.address.isIpv6 = false))) h (fun _ _ _ ht => Table.addVerified_holds ht id)
    (fun _ _ _ ht => Table.addSeen_holds ht id) (fun _ peer ht => Table.remove_holds ht peer) hn.ipv4
  queued := by
    intro addr id m hm
    rcases mem_requests_of_step h hm with hm | ⟨datagram, message, nodes, -, hasks, hnodes, rfl⟩
    · exact hn.queued addr id m hm
    · -- the node that asks is in its bucket, and not among the neighbours
      obtain ⟨i, hi, hget⟩ := Table.neighbours_of_get hasks.found
      obtain rfl : (n.connected.kbuckets[i].neighbours id) = nodes := Option.some.inj (hi.symm.trans hnodes)
      refine ⟨KBucket.length_neighbours_lt (hn.bounded i) hget, fun node hnode => ?_⟩
      exact hn.ipv4 i node (List.mem_append_left _ (KBucket.mem_neighbours hnode))

end Node

/-- The datagram is within the limit, and a receiver opens what its buffer holds of it. -/
structure Arrives (c : Crates) (sk : c.SecretKey) (m : EgressMessage) : Prop where
  size : (m.datagram c sk).length ≤ maxPacketSize
  opened : openDatagram c ((m.datagram c sk).take maxPacketSize) =
    .ok ⟨Node.ownId c sk, m.hash c sk, m.messageId.toU8, m.encode c.rlp⟩

/-- A datagram within the limit is opened. -/
theorem arrives_iff_length {c : Crates} (hc : c.SecpLaws) (sk : c.SecretKey) (m : EgressMessage) :
    Arrives c sk m ↔ (m.datagram c sk).length ≤ maxPacketSize := by
  refine ⟨Arrives.size, fun h => ⟨h, ?_⟩⟩
  rw [List.take_of_length_le h, openDatagram_datagram hc]
  rfl

section

variable {c : Crates} (hR : c.rlp.SizeLaws) (sk : c.SecretKey)
include hR

theorem length_ping_datagram_le (m : PingMessage) : ((EgressMessage.ping m).datagram c sk).length ≤ maxPacketSize := by
  have := length_encode_ping_le hR m
  rw [length_datagram, EgressMessage.encode, maxPacketSize]
  omega

theorem length_pong_datagram_le (m : PongMessage) : ((EgressMessage.pong m).datagram c sk).length ≤ maxPacketSize := by
  have := length_encode_pong_le hR m
  rw [length_datagram, EgressMessage.encode, maxPacketSize]
  omega

end

namespace Node

/-- **Datagram size**: in every run of a node, the datagram of a request arrives whole exactly when the request fits. -/
theorem arrives_iff {c : Crates} (hc : c.SecpLaws) (hR : c.rlp.SizeLaws) (sk : c.SecretKey)
    (bootstrapNodes : List NodeRecord) (es : List Event) {n : Node}
    (hn : Runs.run (step c sk) (new c sk bootstrapNodes) es = some n) {addr : SocketAddr} {peer : NodeId}
    {m : EgressMessage} (hm : (addr, peer, m) ∈ n.egressRequests) : Arrives c sk m ↔ Fits m := by
  have hsized : n.Sized := Runs.invariant (fun _ _ _ hn h => step_sized hn h) es (new_sized bootstrapNodes) hn
  rw [arrives_iff_length hc]
  cases m with
  | ping m => exact iff_of_true (length_ping_datagram_le hR sk m) trivial
  | pong m => exact iff_of_true (length_pong_datagram_le hR sk m) trivial
  | findNode m =>
    have := length_encode_findNode_le hR m
    rw [length_datagram]
    exact iff_of_true (by rw [maxPacketSize, EgressMessage.encode]; omega) trivial
  | neighbours m =>
    obtain ⟨hlen, hv4⟩ := hsized.queued addr peer m hm
    rw [length_datagram]
    exact neighbours_fit_iff hR (Nat.le_of_lt_succ hlen) hv4

/-! ## A reply that is cut off -/

section Example

open Software

/-- `secp256k1` does not hash. -/
theorem secpLaws_with_hash {c : Crates} (hc : c.SecpLaws) (hash : Bytes → H256) :
    Crates.SecpLaws { c with keccak256 := hash } :=
  ⟨hc.serialize_head, hc.fromSlice_serialize, hc.sharedX_comm, hc.recoveryId_byte, hc.recover_sign⟩

/-- Keccak-256, with the hashes of the example ids tabulated. -/
def tabulatedHash (data : Bytes) : H256 :=
  if data = (ownId crates clientKey).bytes then
    FixedBytes.ofNat 32 0xc0a6c424ac7157ae408398df7e5f4552091a69125d5dfcb7b8c2659029395bdf
  else if data = (ownId crates clientEphemeralKey).bytes then
    FixedBytes.ofNat 32 0x75bf18e34f9add02a2fe5a146813eb9362372eef6200f3b1dbc3f819671cba69
  else if data.length = 64 then Table.sampleHash data
  else Keccak.hash data

def tabulated : Crates := { crates with keccak256 := tabulatedHash }

/-- The keys of the node and of the one that asks. -/
def nodeKey : tabulated.SecretKey := clientKey

def askerKey : tabulated.SecretKey := clientEphemeralKey

theorem tabulated_secpLaws : tabulated.SecpLaws := secpLaws_with_hash secpLaws tabulatedHash

/-- The node that asks, and 15 nodes of its bucket. -/
def fullBucket : List NodeRecord := { Table.sampleNode 0 with id := ownId tabulated askerKey } ::
  [3, 6, 10, 11, 13, 15, 16, 17, 18, 19, 20, 25, 26, 27, 28].map Table.sampleNode

def askAddr : SocketAddr := ⟨.v4 (FixedBytes.ofNat 4 0x7f000001), 30303⟩

def query : EgressMessage := .findNode ⟨ownId tabulated nodeKey, 1⟩

def ask : List Event := [.receive askAddr (query.datagram tabulated askerKey)]

/-- The lengths of the answers. -/
theorem lengths_ask :
    (Runs.run (step tabulated nodeKey) (new tabulated nodeKey fullBucket) ask).map
      (·.egressRequests.map fun r => (r.2.2.encode tabulated.rlp).length) = some [1192] := by
  have hid : ownId tabulated askerKey ≠ ownId tabulated nodeKey := by decide +kernel
  have hlen : (query.datagram tabulated askerKey).length ≤ maxPacketSize := by
    rw [length_datagram]
    decide +kernel
  have hip : askAddr.ip.isIpv6 = false := rfl
  simp only [ask, Runs.run_cons, step_datagram tabulated_secpLaws hip hid hlen]
  decide +kernel

theorem exists_answer : ∃ n, Runs.run (step tabulated nodeKey) (new tabulated nodeKey fullBucket) ask = some n ∧
    ∃ addr peer m, (addr, peer, m) ∈ n.egressRequests ∧ (EgressMessage.encode tabulated.rlp m).length = 1192 := by
  obtain ⟨n, hn, hl⟩ := Option.map_eq_some_iff.1 lengths_ask
  obtain ⟨⟨addr, peer, m⟩, hr, hm⟩ := List.map_eq_singleton_iff.1 hl
  exact ⟨n, hn, addr, peer, m, by rw [hr]; exact List.mem_singleton_self _, hm⟩

theorem answer_arrives_iff : ∃ n, Runs.run (step tabulated nodeKey) (new tabulated nodeKey fullBucket) ask = some n ∧
    ∃ addr peer m, (addr, peer, m) ∈ n.egressRequests ∧ (Arrives tabulated nodeKey m ↔ Fits m) := by
  obtain ⟨n, hn, addr, peer, m, hm, -⟩ := exists_answer
  exact ⟨n, hn, addr, peer, m, hm, arrives_iff tabulated_secpLaws Rlp.standard_sizeLaws nodeKey fullBucket ask hn hm⟩

/-- The answer takes 1290 bytes. -/
theorem answer_cut_off : ¬∀ (bootstrapNodes : List NodeRecord) (es : List Event) (n : Node),
    Runs.run (step tabulated nodeKey) (new tabulated nodeKey bootstrapNodes) es = some n →
      ∀ addr peer m, (addr, peer, m) ∈ n.egressRequests → Arrives tabulated nodeKey m := by
  intro h
  obtain ⟨n, hn, addr, peer, m, hm, hl⟩ := exists_answer
  have hsize := (h fullBucket ask n hn addr peer m hm).size
  rw [length_datagram, hl, maxPacketSize] at hsize
  omega

end Example

end Node

end Discv4

end EthereumSentry
