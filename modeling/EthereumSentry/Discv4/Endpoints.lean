import EthereumSentry.Discv4.EndpointProof
import EthereumSentry.Discv4.PacketSize
import EthereumSentry.Discv4.RoundTrip
import EthereumSentry.Discv4.Structure

/-!
# Recorded endpoints

A ping tells the endpoint of the node that sends it, which the table records. `Noted` runs the node next to a note of the
endpoint that each node in the table told last. The record has the UDP port in place of the TCP port, and a removal of a
node that is in its list twice brings an older record back; otherwise the table records what is noted
(`endpoints_recorded`).
-/

set_option autoImplicit false

namespace EthereumSentry

namespace Discv4

/-! ## The record of a node in its bucket -/

namespace KBucket

variable {b : KBucket} {id : NodeId} {e : Endpoint}

/-- The node is in the list, or the list has room. -/
def HasPlace (b : KBucket) (id : NodeId) : Prop := id ∈ ids b.bucket ∨ b.bucket.length < bucketSize

/-- The node leaves the list when it is removed. -/
def Leaves (b : KBucket) (id : NodeId) : Prop := b.replacements ≠ [] ∧ (ids b.bucket).count id = 1

/-- The node is still in the list when it is removed. -/
def Lingers (b : KBucket) (id : NodeId) : Prop := b.replacements ≠ [] ∧ 1 < (ids b.bucket).count id

instance (b : KBucket) (id : NodeId) : Decidable (b.HasPlace id) := inferInstanceAs (Decidable (_ ∨ _))

instance (b : KBucket) (id : NodeId) : Decidable (b.Leaves id) := inferInstanceAs (Decidable (_ ∧ _))

theorem mem_ids_of_get (h : (b.get id).isSome) : id ∈ ids b.bucket := by
  obtain ⟨node, hnode, rfl⟩ := exists_of_get h
  exact List.mem_map_of_mem hnode

/-- Another record does not matter for where a node is found. -/
theorem find_eraseIdx_of_ne {l : List NodeRecord} {i : Nat} (hi : i < l.length) (h : l[i].id ≠ id) :
    (l.eraseIdx i).find? (·.id == id) = l.find? (·.id == id) := by
  have hl : l.take i ++ l[i] :: l.drop (i + 1) = l := by rw [List.getElem_cons_drop, List.take_append_drop]
  have hother : (l[i].id == id) = false := by simpa using h
  rw [List.eraseIdx_eq_take_drop_succ]
  conv_rhs => rw [← hl]
  rw [List.find?_append, List.find?_append, List.find?_cons, hother]

/-- **A verified node** is found with its new record, if it has a place. -/
theorem get_addVerified_self (hb : b.Bounded) {node : NodeRecord} (h : ((b.addVerified node).get node.id).isSome) :
    b.HasPlace node.id ∧ (b.addVerified node).get node.id = some node.endpoint := by
  cases hpos : b.findPeerPos node.id with
  | some i =>
    obtain ⟨hi, hid⟩ := of_findPeerPos hpos
    refine ⟨.inl (hid ▸ List.mem_map_of_mem (List.getElem_mem hi)), ?_⟩
    rw [addVerified_of_some hb hpos]
    simp [get]
  | none =>
    have hnot := findPeerPos_eq_none.1 hpos
    unfold addVerified at h ⊢
    simp only [hpos] at h ⊢
    split
    · rename_i hroom
      exact ⟨.inr hroom, by simp [get]⟩
    · rename_i hroom
      rw [if_neg hroom] at h
      have hmem := mem_ids_of_get h
      rw [pushReplacement_bucket] at hmem
      exact absurd hmem hnot

/-- A node that is found and verified is found again. -/
theorem get_addVerified_isSome (hb : b.Bounded) {node : NodeRecord} (h : (b.get node.id).isSome) :
    ((b.addVerified node).get node.id).isSome := by
  cases hpos : b.findPeerPos node.id with
  | some i =>
    rw [addVerified_of_some hb hpos]
    simp [get]
  | none => exact absurd (mem_ids_of_get h) (findPeerPos_eq_none.1 hpos)

theorem get_addVerified_of_ne (hb : b.Bounded) {node : NodeRecord} (h : b.get id = some e) (hne : id ≠ node.id) :
    (b.addVerified node).get id = some e := by
  have hother : (node.id == id) = false := by simpa using hne.symm
  cases hpos : b.findPeerPos node.id with
  | some i =>
    obtain ⟨hi, hid⟩ := of_findPeerPos hpos
    rw [addVerified_of_some hb hpos, get, List.find?_cons, hother, find_eraseIdx_of_ne hi (by rwa [hid, ne_comm])]
    exact h
  | none =>
    unfold addVerified
    simp only [hpos]
    split
    · rw [get, List.find?_cons, hother]
      exact h
    · rw [get, pushReplacement_bucket]
      exact h

/-- A record at the end of the list does not matter for a node that is found. -/
theorem find_append {l l' : List NodeRecord} (h : (l.find? (·.id == id)).map NodeRecord.endpoint = some e) :
    ((l ++ l').find? (·.id == id)).map NodeRecord.endpoint = some e := by
  obtain ⟨node, hnode, rfl⟩ := Option.map_eq_some_iff.1 h
  rw [List.find?_append, hnode]
  rfl

/-- **A seen node** changes no record. -/
theorem get_addSeen {node : NodeRecord} (h : b.get id = some e) : (b.addSeen node).get id = some e := by
  unfold addSeen
  split
  · exact h
  · split
    · exact find_append h
    · rw [get, pushReplacement_bucket]
      exact h

theorem get_remove_of_ne {peer : NodeId} (h : b.get id = some e) (hne : id ≠ peer) : (b.remove peer).get id = some e := by
  rcases remove_cases b peer with hsame | ⟨i, replacement, rest, -, hpos, hremove⟩
  · rwa [hsame]
  · obtain ⟨hi, hid⟩ := of_findPeerPos hpos
    rw [hremove]
    apply find_append
    rw [find_eraseIdx_of_ne hi (by rwa [hid, ne_comm])]
    exact h

/-- **A node that neither leaves nor lingers** keeps its record when it is removed. -/
theorem get_remove_self (h : b.get id = some e) (hl : ¬b.Leaves id) (hl' : ¬b.Lingers id) :
    (b.remove id).get id = some e := by
  by_cases hr : b.replacements = []
  · rwa [remove_of_none (.inl hr)]
  · have hmem : id ∈ ids b.bucket := mem_ids_of_get (by rw [h, Option.isSome_some])
    have hpos := List.count_pos_iff.2 hmem
    rcases Nat.lt_or_eq_of_le (Nat.succ_le_of_lt hpos) with hlt | heq
    · exact absurd ⟨hr, hlt⟩ hl'
    · exact absurd ⟨hr, heq.symm⟩ hl

end KBucket

/-! ## The record of a node in the table -/

namespace Table

section

variable (keccak256 : Bytes → H256) (t : Table) (id : NodeId)

def HasPlace : Prop := ∃ b ∈ t.bucket keccak256 id, b.HasPlace id

def Leaves : Prop := ∃ b ∈ t.bucket keccak256 id, b.Leaves id

def Lingers : Prop := ∃ b ∈ t.bucket keccak256 id, b.Lingers id

instance : Decidable (t.HasPlace keccak256 id) := inferInstanceAs (Decidable (∃ b ∈ t.bucket keccak256 id, b.HasPlace id))

instance : Decidable (t.Leaves keccak256 id) := inferInstanceAs (Decidable (∃ b ∈ t.bucket keccak256 id, b.Leaves id))

end

variable {keccak256 : Bytes → H256} {t t' : Table} {id : NodeId} {e : Endpoint}

theorem get_eq {i : Fin addressBits} (hi : t.logdistance keccak256 id = some i) :
    t.get keccak256 id = (t.kbucket i).get id := by
  simp only [get, bucket, hi, Option.map_some, Option.bind_some]

theorem exists_logdistance_of_get (h : (t.get keccak256 id).isSome) :
    ∃ i, t.logdistance keccak256 id = some i ∧ t.bucket keccak256 id = some (t.kbucket i) := by
  cases hi : t.logdistance keccak256 id with
  | none => simp [get, bucket, hi] at h
  | some i => exact ⟨i, rfl, by rw [bucket, hi, Option.map_some]⟩

/-- A node keeps its record when the operation on its bucket does. -/
theorem get_of_step (op : Op) (h : step keccak256 t op = some t') (hget : t.get keccak256 id = some e)
    (hop : ∀ i, t.site keccak256 op = some i → t.logdistance keccak256 id = some i → (t.kbucket i).get id = some e →
      ((t.kbucket i).perform op).get id = some e) : t'.get keccak256 id = some e := by
  obtain ⟨i, hi, -⟩ := exists_logdistance_of_get (Option.isSome_of_eq_some hget)
  rw [get_eq hi] at hget
  rw [get_eq ((logdistance_congr (step_idHash h) id).trans hi), kbuckets_of_step h]
  split
  · rename_i hsite
    exact hop i hsite hi hget
  · exact hget

theorem get_addSeen (node : NodeRecord) (hget : t.get keccak256 id = some e) :
    (t.addSeen keccak256 node).get keccak256 id = some e :=
  get_of_step (.addSeen node) rfl hget fun _ _ _ h => KBucket.get_addSeen h

theorem get_foldl_addSeen (nodes : List NodeRecord) (hget : t.get keccak256 id = some e) :
    (nodes.foldl (·.addSeen keccak256) t).get keccak256 id = some e := by
  induction nodes generalizing t with
  | nil => exact hget
  | cons node nodes ih => exact ih (get_addSeen node hget)

theorem get_addVerified_of_ne (ht : t.Bounded) {node : NodeRecord} (hne : id ≠ node.id)
    (hget : t.get keccak256 id = some e) : (t.addVerified keccak256 node).get keccak256 id = some e :=
  get_of_step (.addVerified node) rfl hget fun i _ _ h => KBucket.get_addVerified_of_ne (ht i) h hne

theorem get_remove_of_ne {peer : NodeId} (hne : id ≠ peer) (hget : t.get keccak256 id = some e) :
    (t.remove keccak256 peer).get keccak256 id = some e :=
  get_of_step (.remove peer) rfl hget fun _ _ _ h => KBucket.get_remove_of_ne h hne

theorem get_remove_self (hl : ¬t.Leaves keccak256 id) (hl' : ¬t.Lingers keccak256 id)
    (hget : t.get keccak256 id = some e) : (t.remove keccak256 id).get keccak256 id = some e := by
  refine get_of_step (.remove id) rfl hget fun i hi _ h => ?_
  have hb : t.kbucket i ∈ t.bucket keccak256 id := by
    have hi' : t.logdistance keccak256 id = some i := hi
    rw [bucket, hi']
    rfl
  exact KBucket.get_remove_self h (fun h => hl ⟨_, hb, h⟩) fun h => hl' ⟨_, hb, h⟩

/-- The bucket of a node that is verified. -/
theorem get_addVerified {node : NodeRecord} (hip : node.address.isIpv6 = false) :
    (t.addVerified keccak256 node).get keccak256 node.id =
      (t.bucket keccak256 node.id).bind fun b => (b.addVerified node).get node.id := by
  have hstep : step keccak256 t (.addVerified node) = some (t.addVerified keccak256 node) := rfl
  cases hi : t.logdistance keccak256 node.id with
  | none =>
    have hi' := (logdistance_congr (step_idHash hstep) node.id).trans hi
    simp only [get, bucket, hi, hi', Option.map_none, Option.bind_none]
  | some i =>
    have hsite : t.site keccak256 (.addVerified node) = some i := by
      simp only [site, Op.target, hip, Bool.false_eq_true, if_false, Option.bind_some, hi]
    rw [get_eq ((logdistance_congr (step_idHash hstep) node.id).trans hi), kbuckets_of_step hstep, if_pos hsite, bucket,
      hi]
    rfl

theorem get_addVerified_self (ht : t.Bounded) (node : NodeRecord) (hip : node.address.isIpv6 = false)
    (h : ((t.addVerified keccak256 node).get keccak256 node.id).isSome) :
    t.HasPlace keccak256 node.id ∧ (t.addVerified keccak256 node).get keccak256 node.id = some node.endpoint := by
  rw [get_addVerified hip] at h ⊢
  cases hi : t.logdistance keccak256 node.id with
  | none => simp [bucket, hi] at h
  | some i =>
    have hb : t.bucket keccak256 node.id = some (t.kbucket i) := by rw [bucket, hi, Option.map_some]
    rw [hb, Option.bind_some] at h ⊢
    obtain ⟨hplace, hget⟩ := KBucket.get_addVerified_self (ht i) h
    exact ⟨⟨_, hb, hplace⟩, hget⟩

theorem get_addVerified_isSome (ht : t.Bounded) (node : NodeRecord) (hip : node.address.isIpv6 = false)
    (h : (t.get keccak256 node.id).isSome) : ((t.addVerified keccak256 node).get keccak256 node.id).isSome := by
  obtain ⟨i, hi, hb⟩ := exists_logdistance_of_get h
  rw [get_eq hi] at h
  rw [get_addVerified hip, hb, Option.bind_some]
  exact KBucket.get_addVerified_isSome (ht i) h

end Table

/-! ## Notes -/

section

variable (c : Crates) (sk : c.SecretKey)

/-- The sender of a ping that is handled, and the endpoint that it tells. -/
def pingOf (addr : SocketAddr) (buf : Bytes) : Option (NodeId × Endpoint) :=
  match openDatagram c buf with
  | .ok o =>
    if addr.ip.isIpv6 ∨ o.remoteId = Node.ownId c sk ∨ MessageId.fromU8 o.typ ≠ some .ping then none
    else (PingMessage.decode c.rlp o.data).toOption.bind fun message =>
      if message.fromEndpoint.address.isIpv6 then none else some (o.remoteId, message.fromEndpoint)
  | .error _ => none

/-- A node, and what the nodes in the table have told since they entered their lists. -/
structure Noted where
  node : Node
  heard : NodeId → Option Endpoint

namespace Noted

def start (bootstrapNodes : List NodeRecord) : Noted := ⟨Node.new c sk bootstrapNodes, fun _ => none⟩

/-- What is noted on an event that leads to a node `n`. -/
def note (s : Noted) (n : Node) : Event → NodeId → Option Endpoint
  | .receive addr datagram =>
    match pingOf c sk addr (datagram.take maxPacketSize) with
    | some (id, e) =>
      if (n.connected.get c.keccak256 id).isSome then Function.update s.heard id (some e) else s.heard
    | none => s.heard
  | .timeout i =>
    match s.node.pingTimeouts[i]? with
    | some (hash, peer) =>
      if hash ∈ s.node.inflightPingRequests ∧ s.node.connected.Leaves c.keccak256 peer then
        Function.update s.heard peer none
      else s.heard
    | none => s.heard
  | _ => s.heard

def step (s : Noted) (e : Event) : Option Noted := (s.node.step c sk e).map fun n => ⟨n, s.note c sk n e⟩

/-- The table has the endpoints that were noted. -/
def Recorded (s : Noted) : Prop := ∀ id e, s.heard id = some e → s.node.connected.get c.keccak256 id = some e

/-- A ping that is recorded tells the same port twice, and no node that is removed lingers in its list. -/
def Faithful (s : Noted) : Event → Prop
  | .receive addr datagram => ∀ id e, pingOf c sk addr (datagram.take maxPacketSize) = some (id, e) →
    s.node.connected.HasPlace c.keccak256 id → e.tcpPort = e.udpPort
  | .timeout i => ∀ hash peer, s.node.pingTimeouts[i]? = some (hash, peer) → hash ∈ s.node.inflightPingRequests →
    ¬s.node.connected.Lingers c.keccak256 peer
  | _ => True

end Noted

end

variable {c : Crates} {sk : c.SecretKey} {addr : SocketAddr} {buf : Bytes} {n n' : Node} {id : NodeId} {e : Endpoint}
  {ev : Event}

theorem pingOf_eq_some (h : pingOf c sk addr buf = some (id, e)) : ∃ o message, openDatagram c buf = .ok o ∧
    addr.ip.isIpv6 = false ∧ o.remoteId ≠ Node.ownId c sk ∧ MessageId.fromU8 o.typ = some .ping ∧
    PingMessage.decode c.rlp o.data = .ok message ∧ message.fromEndpoint.address.isIpv6 = false ∧
    id = o.remoteId ∧ e = message.fromEndpoint := by
  unfold pingOf at h
  split at h
  · rename_i o ho
    split at h
    · cases h
    · rename_i hcond
      simp only [not_or, ne_eq, not_not] at hcond
      obtain ⟨hip, hid, htyp⟩ := hcond
      cases hd : PingMessage.decode c.rlp o.data with
      | error error => simp [hd, Except.toOption] at h
      | ok message =>
        simp only [hd, Except.toOption, Option.bind_some] at h
        split at h
        · cases h
        · rename_i hv4
          cases h
          exact ⟨o, message, ho, by simpa using hip, hid, htyp, hd, by simpa using hv4, rfl, rfl⟩
  · cases h

/-- **A ping** has its sender verified, with the UDP port for both. -/
theorem connected_of_ping (h : pingOf c sk addr buf = some (id, e)) (hr : n.receive c sk addr buf = .ok n') :
    n'.connected = n.connected.addVerified c.keccak256 ⟨e.address, e.udpPort, e.udpPort, id⟩ := by
  obtain ⟨o, message, ho, hip, hid, htyp, hd, -, rfl, rfl⟩ := pingOf_eq_some h
  simp only [Node.receive, hip, ho, bind, Except.bind, if_neg hid, Node.handle, htyp, hd, Except.mapError,
    Bool.false_eq_true, if_false] at hr
  cases hr
  rfl

theorem isSome_receive_of_ping (n : Node) (h : pingOf c sk addr buf = some (id, e)) :
    ∃ n', n.receive c sk addr buf = .ok n' := by
  obtain ⟨o, message, ho, hip, hid, htyp, hd, -, -, -⟩ := pingOf_eq_some h
  simp only [Node.receive, hip, ho, bind, Except.bind, if_neg hid, Node.handle, htyp, hd, Except.mapError,
    Bool.false_eq_true, if_false]
  exact ⟨_, rfl⟩

/-- Other datagrams show nodes to the table, if they do anything to it. -/
theorem connected_of_not_ping (h : pingOf c sk addr buf = none) (hr : n.receive c sk addr buf = .ok n') :
    ∃ nodes : List NodeRecord, n'.connected = nodes.foldl (·.addSeen c.keccak256) n.connected := by
  rcases Node.receive_cases hr with rfl | ⟨o, hip, ho, hid, hh⟩
  · exact ⟨[], rfl⟩
  · cases hh with
    | ping message htyp hd =>
      have hv6 : message.fromEndpoint.address.isIpv6 = true := by
        simpa [pingOf, ho, hip, hid, htyp, hd, Except.toOption] using h
      exact ⟨[], if_pos hv6⟩
    | neighbours message => exact ⟨message.nodes, rfl⟩
    | pong | findNode | ignored => exact ⟨[], rfl⟩

namespace Noted

variable {s s' : Noted} {datagram : Bytes}

theorem step_bounded (h : s.step c sk ev = some s') (hb : s.node.connected.Bounded) : s'.node.connected.Bounded := by
  obtain ⟨n, hn, rfl⟩ := Option.map_eq_some_iff.1 h
  exact Node.step_connected hn (fun _ node _ ht => Table.addVerified_bounded ht node)
    (fun _ node _ ht => Table.addSeen_bounded ht node) (fun _ peer ht => Table.remove_bounded ht peer) hb

/-- A datagram that is handled leaves what is noted in the table. -/
theorem recorded_of_receive (hb : s.node.connected.Bounded) (hs : s.Recorded c)
    (hf : s.Faithful c sk (.receive addr datagram)) (hr : n.receive c sk addr (datagram.take maxPacketSize) = .ok n')
    (hc : n.connected = s.node.connected) : Recorded c ⟨n', s.note c sk n' (.receive addr datagram)⟩ := by
  intro id e hheard
  cases hp : pingOf c sk addr (datagram.take maxPacketSize) with
  | none =>
    simp only [note, hp] at hheard
    obtain ⟨nodes, hnodes⟩ := connected_of_not_ping hp hr
    rw [hnodes, hc]
    exact Table.get_foldl_addSeen nodes (hs id e hheard)
  | some p =>
    obtain ⟨peer, told⟩ := p
    have hconnected := connected_of_ping hp hr
    obtain ⟨_, _, -, -, -, -, -, hip, -, htold⟩ := pingOf_eq_some hp
    rw [← htold] at hip
    rw [hc] at hconnected
    simp only [note, hp, hconnected] at hheard ⊢
    by_cases hid : id = peer
    · subst hid
      by_cases hplace : ((s.node.connected.addVerified c.keccak256
          ⟨told.address, told.udpPort, told.udpPort, id⟩).get c.keccak256 id).isSome
      · rw [if_pos hplace, Function.update_self, Option.some.injEq] at hheard
        subst hheard
        obtain ⟨hhas, hget⟩ := Table.get_addVerified_self hb
          ⟨told.address, told.udpPort, told.udpPort, id⟩ hip hplace
        have hport := hf id told hp hhas
        have htcp : (⟨told.address, told.udpPort, told.udpPort⟩ : Endpoint) = ⟨told.address, told.udpPort, told.tcpPort⟩ :=
          by rw [hport]
        exact hget.trans (congrArg some htcp)
      · rw [if_neg hplace] at hheard
        have hfound := Option.isSome_of_eq_some (hs id e hheard)
        exact absurd (Table.get_addVerified_isSome hb
          ⟨told.address, told.udpPort, told.udpPort, id⟩ hip hfound) hplace
    · have hold : s.heard id = some e := by
        split at hheard
        · rwa [Function.update_of_ne hid] at hheard
        · exact hheard
      exact Table.get_addVerified_of_ne hb hid (hs id e hold)

/-- **The endpoints stay recorded** in a step that is faithful. -/
theorem step_recorded (hb : s.node.connected.Bounded) (hs : s.Recorded c) (hf : s.Faithful c sk ev)
    (h : s.step c sk ev = some s') : s'.Recorded c := by
  obtain ⟨n, hn, rfl⟩ := Option.map_eq_some_iff.1 h
  cases ev with
  | receive addr datagram =>
    cases hr : Node.receive c sk
        { s.node with history := .received addr (datagram.take maxPacketSize) :: s.node.history } addr
        (datagram.take maxPacketSize) with
    | ok n' =>
      simp only [Node.step, hr, Option.some.injEq] at hn
      subst hn
      exact recorded_of_receive hb hs hf hr rfl
    | error error =>
      simp only [Node.step, hr, Option.some.injEq] at hn
      subst hn
      cases hp : pingOf c sk addr (datagram.take maxPacketSize) with
      | none =>
        intro id e hheard
        simp only [note, hp] at hheard
        exact hs id e hheard
      | some p =>
        obtain ⟨n', hn'⟩ := isSome_receive_of_ping
          { s.node with history := .received addr (datagram.take maxPacketSize) :: s.node.history } hp
        rw [hr] at hn'
        cases hn'
  | serve sent =>
    cases hq : s.node.egressRequests with
    | nil => simp [Node.step, hq] at hn
    | cons r rest =>
      simp only [Node.step, hq, Option.some.injEq] at hn
      subst hn
      intro id e hheard
      rw [(Node.serve_cases c sk { s.node with egressRequests := rest } r.1 r.2.1 r.2.2 sent).1]
      exact hs id e hheard
  | timeout i =>
    cases ht : s.node.pingTimeouts[i]? with
    | none => simp [Node.step, ht] at hn
    | some r =>
      obtain ⟨hash, peer⟩ := r
      simp only [Node.step, ht, Option.some.injEq] at hn
      subst hn
      intro id e hheard
      simp only [note, ht] at hheard
      simp only [Node.timeout]
      by_cases hin : hash ∈ s.node.inflightPingRequests
      · rw [if_pos hin]
        by_cases hid : id = peer
        · subst hid
          by_cases hl : s.node.connected.Leaves c.keccak256 id
          · rw [if_pos ⟨hin, hl⟩, Function.update_self] at hheard
            cases hheard
          · rw [if_neg fun h => hl h.2] at hheard
            exact Table.get_remove_self hl (hf hash id ht hin) (hs id e hheard)
        · have hold : s.heard id = some e := by
            split at hheard
            · rwa [Function.update_of_ne hid] at hheard
            · exact hheard
          exact Table.get_remove_of_ne hid (hs id e hold)
      · rw [if_neg hin]
        rw [if_neg fun h => hin h.1] at hheard
        exact hs id e hheard
  | ping | findNode | awaitNeighbours | endNeighbours =>
    cases hn
    exact hs

/-- **Recorded endpoints.** In a run in which every ping that is recorded tells the same port for TCP as for UDP, and no
node that times out is in its list twice, the table has the endpoint of the last ping of each node since it entered its
list. -/
theorem endpoints_recorded (c : Crates) (sk : c.SecretKey) (bootstrapNodes : List NodeRecord) (es : List Event)
    (hes : Runs.Along (step c sk) (Faithful c sk) (start c sk bootstrapNodes) es) :
    Runs.Always (step c sk) (Recorded c) (start c sk bootstrapNodes) es := by
  have hb : (start c sk bootstrapNodes).node.connected.Bounded := (Node.new_sized bootstrapNodes).bounded
  have hstep : ∀ (s : Noted) ev s', s.node.connected.Bounded ∧ s.Recorded c → s.Faithful c sk ev →
      s.step c sk ev = some s' → s'.node.connected.Bounded ∧ s'.Recorded c := fun s ev s' hs hf h =>
    ⟨step_bounded h hs.1, step_recorded hs.1 hs.2 hf h⟩
  exact (Runs.Along.always hstep ⟨hb, fun id e h => nomatch h⟩ hes).mono fun s hs => hs.2

/-- A ping is noted when its sender is found then. -/
theorem step_ping (h : pingOf c sk addr (datagram.take maxPacketSize) = some (id, e))
    (hget : ((s.node.connected.addVerified c.keccak256 ⟨e.address, e.udpPort, e.udpPort, id⟩).get c.keccak256
      id).isSome) : ∃ s', s.step c sk (.receive addr datagram) = some s' ∧ s'.heard id = some e ∧
      s'.node.connected = s.node.connected.addVerified c.keccak256 ⟨e.address, e.udpPort, e.udpPort, id⟩ := by
  obtain ⟨n', hr⟩ := isSome_receive_of_ping
    { s.node with history := .received addr (datagram.take maxPacketSize) :: s.node.history } h
  have hconnected := connected_of_ping h hr
  have hstep : s.node.step c sk (.receive addr datagram) = some n' := by simp only [Node.step, hr]
  refine ⟨_, by rw [step, hstep]; rfl, ?_, hconnected⟩
  simp only [note, h]
  rw [hconnected, if_pos hget, Function.update_self]

/-- The ping of another node is handled. -/
theorem pingOf_datagram (hc : c.SecpLaws) (hl : c.rlp.ListLaws) (hR : c.rlp.SizeLaws) (sk sk' : c.SecretKey)
    (addr : SocketAddr) (m : PingMessage) (hip : addr.ip.isIpv6 = false) (hid : Node.ownId c sk' ≠ Node.ownId c sk)
    (hv4 : m.fromEndpoint.address.isIpv6 = false) :
    pingOf c sk addr (((EgressMessage.ping m).datagram c sk').take maxPacketSize) =
      some (Node.ownId c sk', m.fromEndpoint) := by
  have hlen : (m.encode c.rlp).length ≤ 60 := length_encode_ping_le hR m
  have harrives : Arrives c sk' (.ping m) := (arrives_iff_length hc sk' _).2 (length_ping_datagram_le hR sk' m)
  have htyp : MessageId.fromU8 (EgressMessage.ping m).messageId.toU8 = some .ping := MessageId.fromU8_toU8 .ping
  have hd : PingMessage.decode c.rlp ((EgressMessage.ping m).encode c.rlp) = .ok m :=
    PingMessage.decode_encode hl (by omega)
  rw [pingOf, harrives.opened]
  simp [hip, hid, htyp, hd, hv4, Except.toOption]

/-! ## A TCP port that is not recorded -/

section Example

open Software Node

/-- A ping that tells a TCP port. -/
def pingFrom (tcpPort : UInt16) : PingMessage := ⟨⟨askAddr.ip, 30303, tcpPort⟩, sampleEndpoint, 1⟩

theorem pingOf_pingFrom (tcpPort : UInt16) : pingOf tabulated nodeKey askAddr
    (((EgressMessage.ping (pingFrom tcpPort)).datagram tabulated askerKey).take maxPacketSize) =
      some (ownId tabulated askerKey, ⟨askAddr.ip, 30303, tcpPort⟩) :=
  pingOf_datagram tabulated_secpLaws Rlp.standard_listLaws Rlp.standard_sizeLaws nodeKey askerKey askAddr
    (pingFrom tcpPort) rfl (by decide +kernel) rfl

/-- The ping with one port is recorded. -/
theorem same_port_recorded : Runs.Always (step tabulated nodeKey) (Recorded tabulated) (start tabulated nodeKey [])
    [.receive askAddr ((EgressMessage.ping (pingFrom 30303)).datagram tabulated askerKey)] := by
  refine endpoints_recorded tabulated nodeKey [] _ ⟨fun id e hp _ => ?_, fun _ _ => trivial⟩
  obtain ⟨rfl, rfl⟩ := Prod.mk.inj (Option.some.inj ((pingOf_pingFrom 30303).symm.trans hp))
  rfl

/-- The ping with two ports is not. -/
theorem other_port_not_recorded : ¬∀ es, Runs.Always (step tabulated nodeKey) (Recorded tabulated)
    (start tabulated nodeKey []) es := by
  intro h
  have hget : ((start tabulated nodeKey []).node.connected.addVerified tabulated.keccak256
      ⟨askAddr.ip, 30303, 30303, ownId tabulated askerKey⟩).get tabulated.keccak256 (ownId tabulated askerKey) =
        some ⟨askAddr.ip, 30303, 30303⟩ := by
    decide +kernel
  obtain ⟨s', hs', hheard, hconnected⟩ := step_ping (s := start tabulated nodeKey []) (pingOf_pingFrom 30304)
    (Option.isSome_of_eq_some hget)
  have hrecorded := (h [_]).2 s' hs' _ _ hheard
  rw [hconnected] at hrecorded
  exact absurd (hget.symm.trans hrecorded) (by decide)

end Example

end Noted

end Discv4

end EthereumSentry
