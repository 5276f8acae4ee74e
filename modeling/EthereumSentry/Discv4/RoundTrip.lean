import EthereumSentry.Devp2p.Software
import EthereumSentry.Discv4.Message

/-!
# A datagram is read as it was written

Every format of `src/discv4/src/message.rs` is read back from its own list, field by field at its index
(`MessageId.decode_encode`). With the opening of the datagram, what the egress router assembles is what the ingress
router parses (`openDatagram_decode`).
-/

set_option autoImplicit false

namespace EthereumSentry

namespace Discv4

open Rlp (Codec DecoderError)

/-- `Rlp::new(data).as_val()`, at the type that the ingress router reads for a message id. -/
def MessageId.decode (R : Codec) (data : Bytes) : MessageId → Except DecoderError EgressMessage
  | .ping => (PingMessage.decode R data).map .ping
  | .pong => (PongMessage.decode R data).map .pong
  | .findNode => (FindNodeMessage.decode R data).map .findNode
  | .neighbours => (NeighboursMessage.decode R data).map .neighbours

/-- The octets of an address have one of the two lengths. -/
@[simp] theorem IpAddr.ofOctets_octets (a : IpAddr) : IpAddr.ofOctets a.octets = .ok a := by
  cases a <;> simp [IpAddr.octets, ofOctets]

theorem IpAddr.length_octets_lt (a : IpAddr) : a.octets.length < 2 ^ 64 := by
  cases a <;> simp [IpAddr.octets]

variable {R : Codec}

/-! ## Items of a list -/

/-- The items can be read off their list. -/
structure Listed (R : Codec) (xs : List Bytes) : Prop where
  nested : ∀ x ∈ xs, R.IsNested x
  size : (R.encodeList xs).length < 2 ^ 64

namespace Listed

variable {xs : List Bytes} {i : Nat}

theorem itemAt (h : Listed R xs) (hl : R.ListLaws) {x : Bytes} (hx : xs[i]? = some x) :
    R.itemAt (R.encodeList xs) i = .ok x := by
  have hi := hl.itemAt_nested xs [] i h.nested h.size
  rwa [List.append_nil, hx] at hi

theorem items (h : Listed R xs) (hl : R.ListLaws) : R.items (R.encodeList xs) = xs := by
  have hi := hl.items_nested xs [] h.nested h.size
  rwa [List.append_nil] at hi

theorem u16At (h : Listed R xs) (hl : R.ListLaws) {p : UInt16} (hx : xs[i]? = some (R.encodeUint p.toNat)) :
    u16At R (R.encodeList xs) i = .ok p := by
  have hp : R.uint 2 (R.encodeUint p.toNat) = .ok p.toNat :=
    hl.uint_uint 2 _ p.toNat_lt (p.toNat_lt.trans (by decide))
  simp only [Discv4.u16At, h.itemAt hl hx, hp, bind, Except.bind, UInt16.ofNat_toNat]
  rfl

theorem u64At (h : Listed R xs) (hl : R.ListLaws) {n : UInt64} (hx : xs[i]? = some (R.encodeUint n.toNat)) :
    u64At R (R.encodeList xs) i = .ok n := by
  have hn : R.uint 8 (R.encodeUint n.toNat) = .ok n.toNat := hl.uint_uint 8 _ n.toNat_lt n.toNat_lt
  simp only [Discv4.u64At, h.itemAt hl hx, hn, bind, Except.bind, UInt64.ofNat_toNat]
  rfl

theorem addressAt0 (h : Listed R xs) (hl : R.ListLaws) {a : IpAddr} (hx : xs[0]? = some (R.encodeBytes a.octets)) :
    addressAt0 R (R.encodeList xs) = .ok a := by
  simp only [Discv4.addressAt0, h.itemAt hl hx, hl.data_nested _ a.length_octets_lt, bind, Except.bind,
    IpAddr.ofOctets_octets]

/-- An item that is a list itself. -/
theorem of_mem (h : Listed R xs) (hl : R.ListLaws) {ys : List Bytes} (hx : R.encodeList ys ∈ xs)
    (hn : ∀ y ∈ ys, R.IsNested y) : Listed R ys :=
  ⟨hn, (hl.length_item_le hx).trans_lt h.size⟩

end Listed

/-! ## Records and endpoints -/

/-- The items of a record. -/
def NodeRecord.items (R : Codec) (n : NodeRecord) : List Bytes :=
  [R.encodeBytes n.address.octets, R.encodeUint n.udpPort.toNat, R.encodeUint n.tcpPort.toNat, R.encodeBytes n.id.bytes]

theorem NodeRecord.isNested_items (n : NodeRecord) : ∀ x ∈ n.items R, R.IsNested x := by
  simp only [items, List.mem_cons, List.not_mem_nil, or_false, forall_eq_or_imp, forall_eq]
  exact ⟨.bytes _, .uint (n.udpPort.toNat_lt.trans (by decide)), .uint (n.tcpPort.toNat_lt.trans (by decide)), .bytes _⟩

/-- **A record is read back.** -/
theorem NodeRecord.decode_encode (hr : R.Lawful) (hl : R.ListLaws) {n : NodeRecord} (h : Listed R (n.items R)) :
    NodeRecord.decode R (n.encode R) = .ok n := by
  have hid := hr.hash_bytes 64 n.id (by decide)
  have henc : n.encode R = R.encodeList (n.items R) := rfl
  simp only [decode, henc, h.addressAt0 hl (a := n.address) rfl, h.u16At hl (i := 1) (p := n.udpPort) rfl,
    h.u16At hl (i := 2) (p := n.tcpPort) rfl, h.itemAt hl (i := 3) (x := R.encodeBytes n.id.bytes) rfl, hid, bind,
    Except.bind]
  rfl

/-- The items of an endpoint. -/
def Endpoint.items (R : Codec) (e : Endpoint) : List Bytes :=
  [R.encodeBytes e.address.octets, R.encodeUint e.udpPort.toNat, R.encodeUint e.tcpPort.toNat]

theorem Endpoint.isNested_items (e : Endpoint) : ∀ x ∈ e.items R, R.IsNested x := by
  simp only [items, List.mem_cons, List.not_mem_nil, or_false, forall_eq_or_imp, forall_eq]
  exact ⟨.bytes _, .uint (e.udpPort.toNat_lt.trans (by decide)), .uint (e.tcpPort.toNat_lt.trans (by decide))⟩

/-- **An endpoint is read back.** -/
theorem Endpoint.decode_encode (hl : R.ListLaws) {e : Endpoint} (h : Listed R (e.items R)) :
    Endpoint.decode R (e.encode R) = .ok e := by
  have henc : e.encode R = R.encodeList (e.items R) := rfl
  simp only [decode, henc, h.addressAt0 hl (a := e.address) rfl, h.u16At hl (i := 1) (p := e.udpPort) rfl,
    h.u16At hl (i := 2) (p := e.tcpPort) rfl, bind, Except.bind]
  rfl

/-! ## Messages -/

theorem FindNodeMessage.decode_encode (hr : R.Lawful) (hl : R.ListLaws) {m : FindNodeMessage}
    (hsize : (m.encode R).length < 2 ^ 64) : FindNodeMessage.decode R (m.encode R) = .ok m := by
  have h : Listed R [R.encodeBytes m.id.bytes, R.encodeUint m.expire.toNat] := by
    refine ⟨?_, hsize⟩
    simp only [List.mem_cons, List.not_mem_nil, or_false, forall_eq_or_imp, forall_eq]
    exact ⟨.bytes _, .uint m.expire.toNat_lt⟩
  simp only [decode, encode, h.itemAt hl (i := 0) rfl, hr.hash_bytes 64 m.id (by decide),
    h.u64At hl (i := 1) (n := m.expire) rfl, bind, Except.bind]
  rfl

theorem NeighboursMessage.decode_encode (hr : R.Lawful) (hl : R.ListLaws) {m : NeighboursMessage}
    (hsize : (m.encode R).length < 2 ^ 64) : NeighboursMessage.decode R (m.encode R) = .ok m := by
  have hnodes : ∀ x ∈ m.nodes.map (·.encode R), R.IsNested x := by
    intro x hx
    obtain ⟨n, -, rfl⟩ := List.mem_map.1 hx
    exact .list n.isNested_items
  have h : Listed R [R.encodeList (m.nodes.map (·.encode R)), R.encodeUint m.expire.toNat] := by
    refine ⟨?_, hsize⟩
    simp only [List.mem_cons, List.not_mem_nil, or_false, forall_eq_or_imp, forall_eq]
    exact ⟨.list hnodes, .uint m.expire.toNat_lt⟩
  have hinner : Listed R (m.nodes.map (·.encode R)) := h.of_mem hl (by simp) hnodes
  have hmap : (m.nodes.map (·.encode R)).mapM (NodeRecord.decode R) = .ok m.nodes :=
    Rlp.mapM_map_eq_ok fun n hn =>
      NodeRecord.decode_encode hr hl (hinner.of_mem hl (List.mem_map_of_mem hn) n.isNested_items)
  simp only [decode, encode, h.itemAt hl (i := 0) rfl, hinner.items hl, hmap,
    h.u64At hl (i := 1) (n := m.expire) rfl, bind, Except.bind]
  rfl

/-- The version in front is skipped. -/
theorem PingMessage.decode_encode (hl : R.ListLaws) {m : PingMessage} (hsize : (m.encode R).length < 2 ^ 64) :
    PingMessage.decode R (m.encode R) = .ok m := by
  have h : Listed R [R.encodeUint 4, m.fromEndpoint.encode R, m.toEndpoint.encode R, R.encodeUint m.expire.toNat] := by
    refine ⟨?_, hsize⟩
    simp only [List.mem_cons, List.not_mem_nil, or_false, forall_eq_or_imp, forall_eq]
    exact ⟨.uint (by decide), .list m.fromEndpoint.isNested_items, .list m.toEndpoint.isNested_items,
      .uint m.expire.toNat_lt⟩
  have hfrom : Listed R (m.fromEndpoint.items R) :=
    h.of_mem hl (by simp [Endpoint.encode, Endpoint.items]) m.fromEndpoint.isNested_items
  have hto : Listed R (m.toEndpoint.items R) :=
    h.of_mem hl (by simp [Endpoint.encode, Endpoint.items]) m.toEndpoint.isNested_items
  simp only [decode, encode, h.itemAt hl (i := 1) rfl, Endpoint.decode_encode hl hfrom, h.itemAt hl (i := 2) rfl,
    Endpoint.decode_encode hl hto, h.u64At hl (i := 3) (n := m.expire) rfl, bind, Except.bind]
  rfl

theorem PongMessage.decode_encode (hr : R.Lawful) (hl : R.ListLaws) {m : PongMessage}
    (hsize : (m.encode R).length < 2 ^ 64) : PongMessage.decode R (m.encode R) = .ok m := by
  have h : Listed R [m.toEndpoint.encode R, R.encodeBytes m.echo.bytes, R.encodeUint m.expire.toNat] := by
    refine ⟨?_, hsize⟩
    simp only [List.mem_cons, List.not_mem_nil, or_false, forall_eq_or_imp, forall_eq]
    exact ⟨.list m.toEndpoint.isNested_items, .bytes _, .uint m.expire.toNat_lt⟩
  have hto : Listed R (m.toEndpoint.items R) :=
    h.of_mem hl (by simp [Endpoint.encode, Endpoint.items]) m.toEndpoint.isNested_items
  simp only [decode, encode, h.itemAt hl (i := 0) rfl, Endpoint.decode_encode hl hto, h.itemAt hl (i := 1) rfl,
    hr.hash_bytes 32 m.echo (by decide), h.u64At hl (i := 2) (n := m.expire) rfl, bind, Except.bind]
  rfl

/-- **A message is read back** at the type of its id. -/
theorem MessageId.decode_encode (hr : R.Lawful) (hl : R.ListLaws) {m : EgressMessage}
    (hsize : (m.encode R).length < 2 ^ 64) : MessageId.decode R (m.encode R) m.messageId = .ok m := by
  cases m with
  | ping m =>
    rw [EgressMessage.messageId, decode, EgressMessage.encode, PingMessage.decode_encode hl hsize]
    rfl
  | pong m =>
    rw [EgressMessage.messageId, decode, EgressMessage.encode, PongMessage.decode_encode hr hl hsize]
    rfl
  | findNode m =>
    rw [EgressMessage.messageId, decode, EgressMessage.encode, FindNodeMessage.decode_encode hr hl hsize]
    rfl
  | neighbours m =>
    rw [EgressMessage.messageId, decode, EgressMessage.encode, NeighboursMessage.decode_encode hr hl hsize]
    rfl

/-! ## Datagrams -/

variable {c : Crates}

/-- **A datagram is read as it was written.** When a datagram fits the buffer of its receiver, it passes the checks of
the length, the hash and the signature, and its receiver reads the id of the signer, the type of the message and the
message. -/
theorem openDatagram_decode (hc : c.SecpLaws) (hr : c.rlp.Lawful) (hl : c.rlp.ListLaws) (sk : c.SecretKey)
    (m : EgressMessage) (hsize : (m.datagram c sk).length ≤ maxPacketSize) :
    ∃ o, openDatagram c ((m.datagram c sk).take maxPacketSize) = .ok o ∧
      o.remoteId = pk2id c (c.fromSecretKey sk) ∧ o.hash = m.hash c sk ∧
      MessageId.fromU8 o.typ = some m.messageId ∧ MessageId.decode c.rlp o.data m.messageId = .ok m := by
  have hlen : (m.encode c.rlp).length < 2 ^ 64 := by
    rw [length_datagram, maxPacketSize] at hsize
    omega
  refine ⟨⟨pk2id c (c.fromSecretKey sk), m.hash c sk, m.messageId.toU8, m.encode c.rlp⟩, ?_, rfl, rfl,
    MessageId.fromU8_toU8 _, MessageId.decode_encode hr hl hlen⟩
  rw [List.take_of_length_le hsize]
  exact openDatagram_datagram hc sk m

/-- A message with the neighbours at an IPv4 and at an IPv6 address. -/
def exampleNeighbours : EgressMessage := .neighbours ⟨[⟨.v4 (FixedBytes.ofNat 4 0x7f000001), 30303, 30301, .zero 64⟩,
  ⟨.v6 (FixedBytes.ofNat 16 1), 0, 65535, .zero 64⟩], 0xffffffffffffffff⟩

theorem openDatagram_decode_example : ∃ o,
    openDatagram Software.crates ((exampleNeighbours.datagram Software.crates Software.clientKey).take maxPacketSize) =
      .ok o ∧ o.remoteId = pk2id Software.crates (Software.crates.fromSecretKey Software.clientKey) ∧
      o.hash = exampleNeighbours.hash Software.crates Software.clientKey ∧
      MessageId.fromU8 o.typ = some exampleNeighbours.messageId ∧
      MessageId.decode Software.crates.rlp o.data exampleNeighbours.messageId = .ok exampleNeighbours :=
  openDatagram_decode Software.secpLaws Rlp.standard_lawful Rlp.standard_listLaws Software.clientKey exampleNeighbours
    (by rw [length_datagram]; decide +kernel)

end Discv4

end EthereumSentry
