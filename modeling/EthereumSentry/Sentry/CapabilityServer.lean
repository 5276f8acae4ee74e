import Mathlib.Data.Finset.Basic
import Mathlib.Data.List.AList
import EthereumSentry.Devp2p.Types
import EthereumSentry.Lib.Hex

/-!
# The capability server

`src/src/main.rs` and `src/src/eth.rs`: the tables of `CapabilityServerImpl` and what is done with them under their
locks. A peer has pipes from `setup_peer` to `teardown_peer`; it is valid from the moment its `Status` is accepted.
-/

set_option autoImplicit false

namespace EthereumSentry

/-! ## Messages -/

/-- `MessageId`. -/
inductive MessageId where
  | status
  | newBlockHashes
  | transactions
  | getBlockHeaders
  | blockHeaders
  | getBlockBodies
  | blockBodies
  | newBlock
  | newPooledTransactionHashes
  | getPooledTransactions
  | pooledTransactions
  | getNodeData
  | nodeData
  | getReceipts
  | receipts
  deriving DecidableEq, Repr

namespace MessageId

def toUsize : MessageId → Nat
  | status => 0
  | newBlockHashes => 1
  | transactions => 2
  | getBlockHeaders => 3
  | blockHeaders => 4
  | getBlockBodies => 5
  | blockBodies => 6
  | newBlock => 7
  | newPooledTransactionHashes => 8
  | getPooledTransactions => 9
  | pooledTransactions => 10
  | getNodeData => 13
  | nodeData => 14
  | getReceipts => 15
  | receipts => 16

def fromUsize : Nat → Option MessageId
  | 0 => some status
  | 1 => some newBlockHashes
  | 2 => some transactions
  | 3 => some getBlockHeaders
  | 4 => some blockHeaders
  | 5 => some getBlockBodies
  | 6 => some blockBodies
  | 7 => some newBlock
  | 8 => some newPooledTransactionHashes
  | 9 => some getPooledTransactions
  | 10 => some pooledTransactions
  | 13 => some getNodeData
  | 14 => some nodeData
  | 15 => some getReceipts
  | 16 => some receipts
  | _ => none

end MessageId

/-- `capability_name`. -/
def capabilityName : CapabilityName := ⟨"eth", by decide⟩

/-- `StatusMessage`. -/
structure StatusMessage (ForkId : Type) where
  protocolVersion : Nat
  networkId : Nat
  totalDifficulty : Nat
  bestHash : H256
  genesisHash : H256
  forkId : ForkId

/-- `StatusData`, with the genesis hash of its forks. -/
structure StatusData where
  networkId : Nat
  totalDifficulty : Nat
  bestHash : H256
  genesis : H256

/-- The entry points of `ethereum_forkid`, with the RLP of a status message that its types take part in, and those that
turn bytes into hex text, and hex text into hashes and integers. -/
structure ForkCrates where
  ForkFilter : Type
  ForkId : Type
  current : ForkFilter → ForkId
  /-- The remote fork id is compatible. -/
  validate : ForkFilter → ForkId → Bool
  encodeStatus : StatusMessage ForkId → Bytes
  decodeStatus : Bytes → Option (StatusMessage ForkId)
  /-- `hex::encode`. -/
  hexEncode : Bytes → String
  /-- `from_str` of a hash. -/
  parseHash : (n : Nat) → String → Option (FixedBytes n)
  /-- `from_str` of a `U256`. -/
  parseU256 : String → Option Nat

/-- What the code relies on in the hex text of a hash: it is read back, and no other number of bytes is. -/
def ForkCrates.HexLaw (k : ForkCrates) : Prop := ∀ n b, k.parseHash n (k.hexEncode b) = FixedBytes.ofBytes? n b

/-! ## Tables -/

/-- `Pipes`: the channel that a call of `on_peer_connect` opens, and the events that come out before those sent to it.
-/
structure Pipes where
  session : Nat
  firstEvents : List OutboundEvent

/-- `BlockTracker`. -/
structure BlockTracker where
  blockByPeer : AList fun _ : PeerId => Nat
  peersByBlock : AList fun _ : Nat => Finset PeerId

namespace BlockTracker

/-- Take a peer out of the set of a block, and drop the set when it is empty. -/
def leave (t : BlockTracker) (peer : PeerId) (block : Nat) : BlockTracker :=
  match t.peersByBlock.lookup block with
  | some peers =>
    if peers.erase peer = ∅ then { t with peersByBlock := t.peersByBlock.erase block }
    else { t with peersByBlock := t.peersByBlock.insert block (peers.erase peer) }
  | none => t

def setBlockNumber (t : BlockTracker) (peer : PeerId) (block : Nat) : BlockTracker :=
  let left := match t.blockByPeer.lookup peer with
    | some oldBlock => t.leave peer oldBlock
    | none => t
  { blockByPeer := t.blockByPeer.insert peer block
    peersByBlock := left.peersByBlock.insert block (insert peer ((left.peersByBlock.lookup block).getD ∅)) }

def removePeer (t : BlockTracker) (peer : PeerId) : BlockTracker :=
  match t.blockByPeer.lookup peer with
  | some block => { t.leave peer block with blockByPeer := t.blockByPeer.erase peer }
  | none => t

end BlockTracker

/-- `CapabilityServerImpl`. -/
structure CapabilityServerImpl (k : ForkCrates) where
  peerPipes : AList fun _ : PeerId => Pipes
  blockTracker : BlockTracker
  statusMessage : Option (StatusData × k.ForkFilter)
  validPeers : Finset PeerId

/-- What `handle_event` does with a message after it has looked up whether the peer is valid. -/
inductive Handling (k : ForkCrates) where
  /-- `Ok(None)`. -/
  | done
  /-- `Err(reason)`. -/
  | kick (reason : DisconnectReason)
  /-- A decoded `Status`, which is then compared with the fork filter. -/
  | status (v : StatusMessage k.ForkId)
  /-- A request or an announcement, which awaits the data provider or the control. -/
  | query (id : MessageId) (data : Bytes)
  /-- `Ok(Some(message))`. -/
  | reply (message : Message)

namespace CapabilityServerImpl

variable {k : ForkCrates}

/-- A new server. -/
def new (k : ForkCrates) : CapabilityServerImpl k := ⟨∅, ⟨∅, ∅⟩, none, ∅⟩

/-- `setup_peer`; `none` when the assertion fails. -/
def setupPeer (s : CapabilityServerImpl k) (peer : PeerId) (p : Pipes) : Option (CapabilityServerImpl k) :=
  match s.peerPipes.lookup peer with
  | some _ => none
  | none => some { s with
    peerPipes := s.peerPipes.insert peer p
    blockTracker := s.blockTracker.setBlockNumber peer 0 }

def teardownPeer (s : CapabilityServerImpl k) (peer : PeerId) : CapabilityServerImpl k := { s with
  peerPipes := s.peerPipes.erase peer
  blockTracker := s.blockTracker.removePeer peer
  validPeers := s.validPeers.erase peer }

/-- The first events of `on_peer_connect`; `none` when the peer does not share the capability, which panics. -/
def firstEvents (s : CapabilityServerImpl k) (caps : List (CapabilityName × Nat)) : Option (List OutboundEvent) :=
  match s.statusMessage with
  | some (data, filter) => (caps.lookup capabilityName).map fun version =>
    [.message capabilityName ⟨MessageId.status.toUsize, k.encodeStatus {
      protocolVersion := version
      networkId := data.networkId
      totalDifficulty := data.totalDifficulty
      bestHash := data.bestHash
      genesisHash := data.genesis
      forkId := k.current filter }⟩]
  | none => some [.disconnect .disconnectRequested]

/-- `handle_event`, for a message, up to its first await or its next lock. -/
def handleMessage (k : ForkCrates) (validPeer : Bool) (message : Message) : Handling k :=
  match MessageId.fromUsize message.id with
  | none => .done
  | some .status => match k.decodeStatus message.data with
    | some v => .status v
    | none => .kick .protocolBreach
  | some id =>
    if validPeer then match id with
      | .getBlockHeaders | .getBlockBodies | .blockHeaders | .blockBodies | .newBlock | .newBlockHashes =>
        .query id message.data
      | .getPooledTransactions => .reply ⟨MessageId.pooledTransactions.toUsize, [0xc0]⟩
      | _ => .done
    else .done

/-- The end of `handle_event` for a `Status`, under the locks of the status message and the valid peers. -/
def acceptStatus (s : CapabilityServerImpl k) (peer : PeerId) (v : StatusMessage k.ForkId) :
    Except DisconnectReason (CapabilityServerImpl k) :=
  match s.statusMessage with
  | some (_, filter) =>
    if k.validate filter v.forkId then .ok { s with validPeers := insert peer s.validPeers }
    else .error .uselessPeer
  | none => .ok s

/-- The session whose channel a peer has. -/
def current (s : CapabilityServerImpl k) (peer : PeerId) : Option Nat := (s.peerPipes.lookup peer).map (·.session)

variable {s s' : CapabilityServerImpl k} {peer q : PeerId}

/-- `setup_peer` succeeds exactly when the peer has no channel, and then opens one. -/
theorem setupPeer_eq_some {p : Pipes} (h : s.setupPeer peer p = some s') :
    s.current peer = none ∧ s'.validPeers = s.validPeers ∧
      ∀ q, s'.current q = if q = peer then some p.session else s.current q := by
  unfold setupPeer at h
  split at h
  · cases h
  · rename_i hnone
    cases h
    refine ⟨by simp [current, hnone], rfl, fun q => ?_⟩
    by_cases hq : q = peer
    · subst hq
      simp [current]
    · simp [current, hq, AList.lookup_insert_ne hq]

theorem setupPeer_eq_none {p : Pipes} : s.setupPeer peer p = none ↔ s.current peer ≠ none := by
  unfold setupPeer current
  cases s.peerPipes.lookup peer <;> simp

/-- `teardown_peer` closes the channel of the peer. -/
theorem current_teardownPeer : (s.teardownPeer peer).current q = if q = peer then none else s.current q := by
  by_cases hq : q = peer
  · subst hq
    simp [current, teardownPeer]
  · simp [current, teardownPeer, hq, AList.lookup_erase_ne hq]

/-- Accepting a `Status` opens and closes no channel. -/
theorem current_acceptStatus {v : StatusMessage k.ForkId} (h : s.acceptStatus peer v = .ok s') :
    s'.current = s.current := by
  unfold acceptStatus at h
  split at h
  · split at h
    · cases h
      rfl
    · cases h
  · cases h
    rfl

end CapabilityServerImpl

section Example

/-- The status message of a peer at the genesis of the main network, with the hash and the next block of its fork id. -/
def genesisStatus : StatusMessage (Nat × Nat) :=
  let genesis : H256 := FixedBytes.ofNat 32 0xd4e56740f876aef8c010b86a40d5f56745a118d0906a34e69aec8c0db1cb8fa3
  ⟨65, 1, 17179869184, genesis, genesis, (0xfc64ec04, 1150000)⟩

/-- The status message, encoded. -/
def genesisStatusBytes : Bytes := be 86
  0xf8544101850400000000a0d4e56740f876aef8c010b86a40d5f56745a118d0906a34e69aec8c0db1cb8fa3a0d4e56740f876aef8c010b86a40d5f56745a118d0906a34e69aec8c0db1cb8fa3c984fc64ec0483118c30

/-- A fork filter that knows its own fork id, and this status message. -/
def genesisForks : ForkCrates where
  ForkFilter := Nat × Nat
  ForkId := Nat × Nat
  current := id
  validate := fun filter forkId => filter = forkId
  encodeStatus := fun _ => genesisStatusBytes
  decodeStatus := fun data => if data = genesisStatusBytes then some genesisStatus else none
  hexEncode := Hex.encode
  parseHash := fun n s => (Hex.decode s.toList).bind (FixedBytes.ofBytes? n)
  parseU256 := fun s => (Hex.decode s.toList).bind fun b => if b.length ≤ 32 then some (ofBe b) else none

theorem genesisForks_hexLaw : genesisForks.HexLaw := fun n b => by
  change (Hex.decode (Hex.encode b).toList).bind _ = _
  rw [Hex.decode_encode, Option.bind_some]

/-- The status of a server at the genesis of the main network. -/
def genesisData : StatusData × genesisForks.ForkFilter :=
  (⟨1, 17179869184, genesisStatus.bestHash, genesisStatus.genesisHash⟩, genesisStatus.forkId)

end Example

end EthereumSentry
