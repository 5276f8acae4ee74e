import EthereumSentry.Devp2p.Software
import EthereumSentry.Discv4.Node

/-!
# Endpoint proofs

A node answers a query with up to a bucket of records, so it should answer only to an address that is proved to be that
of the node that asks: a ping was sent there, and its pong came back from there (`Proved`). The ingress router looks the
node up in the table instead, where every ping enters its sender, and every list of neighbours the nodes on it
(`introduced_of_asks`). `neighbours_proved_iff` says that all replies are proved exactly when no query comes from an
address that is not proved but from a node that is found.
-/

set_option autoImplicit false

namespace EthereumSentry

namespace Discv4

section

variable (c : Crates) (sk : c.SecretKey)

/-- The entry is a ping to the address. -/
def Entry.Pings (addr : SocketAddr) (hash : H256) : Entry → Prop
  | .sent a _ (.ping m) => a = addr ∧ (EgressMessage.ping m).hash c sk = hash
  | _ => False

/-- What a pong echoes that the node has signed. -/
def echoOf (id : NodeId) (buf : Bytes) : Option H256 :=
  match openDatagram c buf with
  | .ok o =>
    if o.remoteId = id ∧ MessageId.fromU8 o.typ = some .pong then
      (PongMessage.decode c.rlp o.data).toOption.map PongMessage.echo
    else none
  | .error _ => none

/-- The node has answered from the address a ping that was sent to it there. -/
def Proved (addr : SocketAddr) (id : NodeId) : List Entry → Prop
  | [] => False
  | .received a buf :: h =>
    (a = addr ∧ ∃ hash, echoOf c id buf = some hash ∧ ∃ e ∈ h, e.Pings c sk addr hash) ∨ Proved addr id h
  | .sent _ _ _ :: h => Proved addr id h

/-- Neighbours were sent only to where they were proved to be asked from. -/
def RepliesProved : List Entry → Prop
  | .sent addr id (.neighbours _) :: h => Proved c sk addr id h ∧ RepliesProved h
  | _ :: h => RepliesProved h
  | [] => True

namespace Node

/-- The replies that were sent and those that wait to be sent are proved. -/
structure Proofed (n : Node) : Prop where
  sent : RepliesProved c sk n.history
  queued : ∀ addr id m, (addr, id, .neighbours m) ∈ n.egressRequests → Proved c sk addr id n.history

/-- A query comes from a node that is found in the table, and from an address that is not proved. -/
def UnprovedQuery (n : Node) : Event → Prop
  | .receive addr datagram => ∃ id message, n.Asks c sk addr (datagram.take maxPacketSize) id message ∧
      ¬Proved c sk addr id n.history
  | _ => False

end Node

variable {c sk}

/-! ## Histories -/

theorem Proved.cons {addr : SocketAddr} {id : NodeId} {h : List Entry} (hp : Proved c sk addr id h) (e : Entry) :
    Proved c sk addr id (e :: h) := by
  cases e with
  | sent => exact hp
  | received => exact .inr hp

/-- Proofs need a ping. -/
theorem Proved.exists_pings {addr : SocketAddr} {id : NodeId} : ∀ {h : List Entry}, Proved c sk addr id h →
    ∃ hash, ∃ e ∈ h, e.Pings c sk addr hash
  | .sent _ _ _ :: h, hp => by
    obtain ⟨hash, e, he, hpings⟩ := exists_pings (h := h) hp
    exact ⟨hash, e, List.mem_cons_of_mem _ he, hpings⟩
  | .received _ _ :: h, hp => by
    rcases hp with ⟨-, hash, -, e, he, hpings⟩ | hp
    · exact ⟨hash, e, List.mem_cons_of_mem _ he, hpings⟩
    · obtain ⟨hash, e, he, hpings⟩ := exists_pings hp
      exact ⟨hash, e, List.mem_cons_of_mem _ he, hpings⟩

/-- A query proves nothing. -/
theorem proved_query {n : Node} {addr : SocketAddr} {buf : Bytes} {id : NodeId} {message : FindNodeMessage}
    (h : n.Asks c sk addr buf id message) :
    Proved c sk addr id (.received addr buf :: n.history) ↔ Proved c sk addr id n.history := by
  obtain ⟨o, ho, -, htyp, -⟩ := h.opened
  have hecho : echoOf c id buf = none := by simp [echoOf, ho, htyp]
  simp [Proved, hecho]

namespace Node

variable {n n' : Node}

/-- What is sent was queued before. -/
theorem repliesProved_step {e : Event} (hn : n.Proofed c sk) (h : n.step c sk e = some n') :
    RepliesProved c sk n'.history := by
  cases step_moves h with
  | received _ _ _ hr => exact history_of_receive hr ▸ hn.sent
  | served _ _ addr peer message _ hr hh =>
    rcases hh with hh | hh
    · exact hh ▸ hn.sent
    · rw [hh]
      cases message with
      | neighbours m => exact ⟨hn.queued addr peer m (hr ▸ List.mem_cons_self), hn.sent⟩
      | ping | pong | findNode => exact hn.sent
  | rejected | asked => exact hn.sent
  | kept _ _ _ _ _ hh => exact hh ▸ hn.sent

theorem proved_step {e : Event} {addr : SocketAddr} {id : NodeId} (hp : Proved c sk addr id n.history)
    (h : n.step c sk e = some n') : Proved c sk addr id n'.history := by
  rcases history_of_step h with hh | ⟨entry, hh⟩
  · exact hh ▸ hp
  · exact hh ▸ hp.cons entry

/-- **A step keeps the replies proved** exactly when it is no query that is not proved. -/
theorem step_proofed (n : Node) (e : Event) (hn : n.Proofed c sk) :
    (∀ n', n.step c sk e = some n' → n'.Proofed c sk) ↔ ¬n.UnprovedQuery c sk e := by
  constructor
  · intro h hquery
    cases e with
    | receive addr datagram =>
      obtain ⟨id, message, hasks, hnot⟩ := hquery
      -- the reply is queued
      obtain ⟨nodes, hstep⟩ := step_of_asks hasks
      have hp := (h _ hstep).queued addr id ⟨nodes, message.expire⟩ (List.mem_append_right _ List.mem_cons_self)
      exact hnot ((proved_query hasks).1 hp)
    | _ => exact hquery
  · intro hquery n' h
    refine ⟨repliesProved_step hn h, fun addr id m hm => proved_step ?_ h⟩
    rcases mem_requests_of_step h hm with hm | ⟨datagram, message, nodes, rfl, hasks, -⟩
    · exact hn.queued addr id m hm
    · by_contra hnot
      exact hquery ⟨id, message, hasks, hnot⟩

variable (c) in
/-- The nodes of the table were introduced. -/
def Known (n : Node) : Prop := n.connected.Holds fun node => Introduced c n.history node.id

theorem step_known {e : Event} (hn : n.Known c) (h : n.step c sk e = some n') : n'.Known c := by
  have hn' : n.connected.Holds fun node => Introduced c n'.history node.id :=
    fun i node hi => (hn i node hi).mono (history_subset h)
  exact step_connected (Q := (·.Holds fun node => Introduced c n'.history node.id)) h
    (fun _ _ hi ht => Table.addVerified_holds ht fun _ => hi) (fun _ _ hi ht => Table.addSeen_holds ht fun _ => hi)
    (fun _ peer ht => Table.remove_holds ht peer) hn'

/-- **What the table says**: without bootstrap nodes, a node whose query is answered has sent a ping or was on a list of
neighbours. -/
theorem introduced_of_asks {es : List Event} {addr : SocketAddr} {buf : Bytes} {id : NodeId} {message : FindNodeMessage}
    (h : Runs.run (step c sk) (new c sk []) es = some n) (hasks : n.Asks c sk addr buf id message) :
    Introduced c n.history id := by
  have hnew : (new c sk []).Known c := Table.new_holds (ownId c sk)
  have hknown : n.Known c := Runs.invariant (fun _ _ _ hn h => step_known hn h) es hnew h
  obtain ⟨i, -, hget⟩ := Table.neighbours_of_get hasks.found
  obtain ⟨node, hnode, rfl⟩ := KBucket.exists_of_get hget
  exact hknown i node (List.mem_append_left _ hnode)

/-- **Endpoint proofs**: without bootstrap nodes, all replies of a run are proved exactly when no query of the run comes
from a node that is found in the table and from an address that is not proved. -/
theorem neighbours_proved_iff (c : Crates) (sk : c.SecretKey) (es : List Event) :
    Runs.Always (step c sk) (Proofed c sk) (new c sk []) es ↔
      Runs.Along (step c sk) (fun n e => ¬n.UnprovedQuery c sk e) (new c sk []) es := by
  refine Runs.always_iff_along (fun _ _ _ (_ : True) _ => trivial) (fun n e _ hn => step_proofed n e hn) es
    trivial ?_
  exact ⟨trivial, by simp [new]⟩

end Node

end

/-! ## A reply that is not proved -/

section Example

open Node Software

def sampleAddr : SocketAddr := ⟨.v4 (FixedBytes.ofNat 4 0x7f000001), 30303⟩

def sampleEndpoint : Endpoint := ⟨sampleAddr.ip, sampleAddr.port, sampleAddr.port⟩

def samplePing : EgressMessage := .ping ⟨sampleEndpoint, sampleEndpoint, 1⟩

def sampleQuery : EgressMessage := .findNode ⟨ownId crates serverKey, 1⟩

/-- Another node pings and asks, from whatever address, and both requests are served. -/
def pingAndAsk : List Event := [.receive sampleAddr (samplePing.datagram crates serverKey), .serve true,
  .receive sampleAddr (sampleQuery.datagram crates serverKey), .serve true]

/-- What was sent, the last first. -/
def sentIds (h : List Entry) : List MessageId := h.filterMap fun
  | .sent _ _ m => some m.messageId
  | .received _ _ => none

/-- Before a reply that is proved, a ping was sent. -/
theorem ping_mem_sentIds {c : Crates} {sk : c.SecretKey} : ∀ {h : List Entry} {ids : List MessageId},
    RepliesProved c sk h → sentIds h = .neighbours :: ids → .ping ∈ ids
  | .received _ _ :: h, _, hr, hs => ping_mem_sentIds (h := h) hr hs
  | .sent _ _ (.neighbours _) :: h, ids, hr, hs => by
    obtain ⟨_, e, he, hpings⟩ := hr.1.exists_pings
    obtain rfl : sentIds h = ids := by simpa [sentIds, EgressMessage.messageId] using hs
    cases e with
    | received => cases hpings
    | sent a p m =>
      cases m with
      | ping m => exact List.mem_filterMap.2 ⟨_, he, rfl⟩
      | _ => cases hpings

/-- Neighbours are sent to a node that has only sent a ping. -/
theorem replies_unproved : ¬∀ es : List Event, Runs.Always (step crates clientKey)
    (fun n => RepliesProved crates clientKey n.history) (new crates clientKey []) es := by
  intro h
  have hrun : (Runs.run (step crates clientKey) (new crates clientKey []) pingAndAsk).map (sentIds ·.history) =
      some [.neighbours, .pong] := by
    have hid : ownId crates serverKey ≠ ownId crates clientKey := by decide +kernel
    have hping : (samplePing.datagram crates serverKey).length ≤ maxPacketSize := by
      rw [length_datagram]
      decide +kernel
    have hask : (sampleQuery.datagram crates serverKey).length ≤ maxPacketSize := by
      rw [length_datagram]
      decide +kernel
    have hip : sampleAddr.ip.isIpv6 = false := rfl
    simp only [pingAndAsk, Runs.run_cons, step_datagram secpLaws hip hid hping, step_datagram secpLaws hip hid hask]
    decide +kernel
  obtain ⟨n, hn, hs⟩ := Option.map_eq_some_iff.1 hrun
  exact absurd (ping_mem_sentIds ((h pingAndAsk).run hn) hs) (by decide)

end Example

end Discv4

end EthereumSentry
