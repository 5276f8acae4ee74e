import EthereumSentry.Sentry.BlockTracker

/-!
# The messages of the gRPC interface

`src/src/grpc.rs` and `src/src/services/sentry.rs`: the ids that messages have towards the clients, the peer ids, which
go through their hex text, and the requests of the service with the peers that they ask for.

The sentry sets no block number but zero (`Swarm.minBlock_exact`).
-/

set_option autoImplicit false

namespace EthereumSentry

/-! ## Ids -/

/-- `MessageId::from_outbound_message_id`. -/
def MessageId.fromOutboundMessageId : Int → Option MessageId
  | 0 => some .getBlockHeaders
  | 1 => some .getBlockBodies
  | 2 => some .getNodeData
  | _ => none

/-- The peer id of a request. -/
def parsePeerId (k : ForkCrates) (peerId : Bytes) : Option PeerId := k.parseHash 64 (k.hexEncode peerId)

theorem bytes_of_parsePeerId {k : ForkCrates} (hk : k.HexLaw) {peerId : Bytes} {peer : PeerId}
    (h : parsePeerId k peerId = some peer) : peer.bytes = peerId := by
  rw [parsePeerId, hk, FixedBytes.ofBytes?] at h
  split at h <;> cases h
  rfl

/-! ## Requests -/

/-- `OutboundMessageData`. -/
structure OutboundMessageData where
  id : Int
  data : Bytes

/-- The event that is sent; `none` when there is no data, or its id is none of a request. -/
def OutboundMessageData.event? (request : Option OutboundMessageData) : Option OutboundEvent := do
  let data ← request
  let id ← MessageId.fromOutboundMessageId data.id
  return .message capabilityName ⟨id.toUsize, data.data⟩

/-- A request of the sentry service. -/
inductive Request where
  | penalizePeer (peerId : Bytes)
  | sendMessageByMinBlock (data : Option OutboundMessageData) (minBlock : Nat)
  | sendMessageById (data : Option OutboundMessageData) (peerId : Bytes)
  | sendMessageToRandomPeers (data : Option OutboundMessageData) (maxPeers : Nat)
  | sendMessageToAll (data : OutboundMessageData)

namespace Request

/-- The peer id of a request about one peer. -/
def peerId : Request → Option Bytes
  | .penalizePeer peerId | .sendMessageById _ peerId => some peerId
  | .sendMessageByMinBlock _ _ | .sendMessageToRandomPeers _ _ | .sendMessageToAll _ => none

/-- What is sent to the peers, if anything. -/
def event : Request → Option OutboundEvent
  | penalizePeer _ => some (.disconnect .disconnectRequested)
  | sendMessageByMinBlock data _ | sendMessageById data _ | sendMessageToRandomPeers data _ =>
    OutboundMessageData.event? data
  | sendMessageToAll data => OutboundMessageData.event? (some data)

end Request

namespace CapabilityServerImpl

variable {k : ForkCrates}

/-- `all_peers`. -/
def allPeers (s : CapabilityServerImpl k) : Finset PeerId := s.peerPipes.keys.toFinset

/-- The set of peers that a request iterates over; `none` when its peer id is not one. -/
def targets (s : CapabilityServerImpl k) : Request → Option (Finset PeerId)
  | .penalizePeer peerId | .sendMessageById _ peerId => (parsePeerId k peerId).map fun peer => {peer}
  | .sendMessageByMinBlock _ minBlock => some (s.blockTracker.peersWithMinBlock minBlock)
  | .sendMessageToRandomPeers _ _ | .sendMessageToAll _ => some s.allPeers

end CapabilityServerImpl

/-- The peers that a request asks for, where the iteration over its set comes in some order. -/
def Request.asked (order : List PeerId) : Request → List PeerId
  | .sendMessageToRandomPeers _ maxPeers => order.take maxPeers
  | _ => order

/-! ## The blocks of the peers -/

namespace CapabilityServerImpl

variable {k : ForkCrates} {s s' : CapabilityServerImpl k}

/-- The block of every peer is zero. -/
def AtGenesis (s : CapabilityServerImpl k) : Prop := ∀ peer b, s.blockTracker.blockByPeer.lookup peer = some b → b = 0

/-- Nothing that is done with the tables sets another block. -/
theorem apply_atGenesis (h : s.AtGenesis) (op : Op k) : (s.apply op).AtGenesis := by
  intro peer b hb
  cases op with
  | setupPeer q p =>
    rw [apply] at hb
    cases hs : s.setupPeer q p with
    | none => exact h peer b (by simpa [hs] using hb)
    | some s' =>
      unfold setupPeer at hs
      split at hs <;> cases hs
      rw [setupPeer, ‹s.peerPipes.lookup q = none›, Option.getD_some, BlockTracker.lookup_setBlockNumber] at hb
      split at hb
      · exact (Option.some.inj hb).symm
      · exact h peer b hb
  | teardownPeer q =>
    rw [apply, teardownPeer, BlockTracker.lookup_removePeer] at hb
    split at hb
    · cases hb
    · exact h peer b hb
  | acceptStatus q v =>
    rw [apply] at hb
    cases hv : s.acceptStatus q v with
    | error reason => exact h peer b (by simpa [hv, Except.toOption] using hb)
    | ok s' =>
      rw [hv, Except.toOption, Option.getD_some, (acceptStatus_eq hv).1] at hb
      exact h peer b hb
  | setStatus status => exact h peer b hb

end CapabilityServerImpl

namespace Swarm

variable {k : ForkCrates} {s : Swarm k}

theorem run_atGenesis {maxPeers : Nat} {es : List (Event k)} (h : Runs.run step (new k maxPeers) es = some s) :
    s.server.AtGenesis := by
  have hstep : ∀ (s : Swarm k) e s', s.server.AtGenesis → s.step e = some s' → s'.server.AtGenesis := by
    intro s e s' ht hs
    rcases server_of_step hs with heq | ⟨op, heq⟩
    · exact heq ▸ ht
    · exact heq ▸ CapabilityServerImpl.apply_atGenesis ht op
  exact Runs.invariant hstep es (fun peer b hb => by simp [new, CapabilityServerImpl.new] at hb) h

/-- **A minimum block**, in every run of a new swarm: a request with zero asks for the peers of a request to all, and a
request with any other block asks for nobody. -/
theorem minBlock_exact {maxPeers : Nat} {es : List (Event k)} (h : Runs.run step (new k maxPeers) es = some s)
    (data : Option OutboundMessageData) (minBlock : Nat) :
    s.server.targets (.sendMessageByMinBlock data minBlock) = some (if minBlock = 0 then s.server.allPeers else ∅) := by
  obtain ⟨hindexed, hpeers⟩ := run_tracks h
  have hgenesis := run_atGenesis h
  rw [CapabilityServerImpl.targets, Option.some.injEq]
  ext peer
  rw [BlockTracker.mem_peersWithMinBlock hindexed]
  have hmem : peer ∈ s.server.allPeers ↔ (s.server.blockTracker.blockByPeer.lookup peer).isSome := by
    rw [AList.lookup_isSome, hpeers, CapabilityServerImpl.allPeers, List.mem_toFinset, AList.mem_keys]
  split
  · rw [hmem, Option.isSome_iff_exists]
    simp [*]
  · refine iff_of_false ?_ (Finset.notMem_empty _)
    rintro ⟨b, hb, hle⟩
    have := hgenesis peer b hb
    omega

/-- With a peer that is connected, a minimum block of one asks for nobody. -/
theorem minBlock_one : ∃ s, Runs.run step (new genesisForks 10) connectIncoming = some s ∧
    samplePeer ∈ s.server.allPeers ∧ s.server.targets (.sendMessageByMinBlock none 1) = some ∅ := by
  have hrun : (Runs.run step (new genesisForks 10) connectIncoming).map
      (fun s => decide (samplePeer ∈ s.server.allPeers)) =
      some true := by decide +kernel
  obtain ⟨s, hs, hmem⟩ := Option.map_eq_some_iff.1 hrun
  exact ⟨s, hs, of_decide_eq_true hmem, minBlock_exact hs none 1⟩

end Swarm

end EthereumSentry
