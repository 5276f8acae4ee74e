import Mathlib.Data.Finset.Union
import EthereumSentry.Swarm.Step

/-!
# The block tracker

The tracker has two indexes, of the blocks by peers and of the peers by blocks. Its operations keep them inverse to each
other (`Indexed`), and it knows what was last set for every peer (`run_lookup`). A server sets up and tears down a peer
in the tracker and among the pipes together, so the same peers are in both (`tracker_indexed`).
-/

set_option autoImplicit false

namespace EthereumSentry

namespace BlockTracker

/-- The set of a block, or the empty set. -/
def peersAt (t : BlockTracker) (block : Nat) : Finset PeerId := (t.peersByBlock.lookup block).getD ∅

/-- `peers_with_min_block`. -/
def peersWithMinBlock (t : BlockTracker) (block : Nat) : Finset PeerId :=
  (t.peersByBlock.keys.toFinset.filter (block ≤ ·)).biUnion t.peersAt

inductive Op where
  | setBlockNumber (peer : PeerId) (block : Nat)
  | removePeer (peer : PeerId)

def apply (t : BlockTracker) : Op → BlockTracker
  | .setBlockNumber peer block => t.setBlockNumber peer block
  | .removePeer peer => t.removePeer peer

/-- A tracker after some operations. -/
def run (ops : List Op) : BlockTracker := ops.foldl apply ⟨∅, ∅⟩

/-- What an operation means for the blocks of the peers. -/
def Op.record (blocks : PeerId → Option Nat) : Op → PeerId → Option Nat
  | .setBlockNumber peer block => Function.update blocks peer (some block)
  | .removePeer peer => Function.update blocks peer none

/-- The block that was last set for a peer, unless the peer was removed since. -/
def lastSet (ops : List Op) : PeerId → Option Nat := ops.foldl Op.record fun _ => none

/-- The two indexes are inverse to each other, and no set is empty. -/
structure Indexed (t : BlockTracker) : Prop where
  inverse : ∀ peer block, peer ∈ t.peersAt block ↔ t.blockByPeer.lookup peer = some block
  nonempty : ∀ block, t.peersByBlock.lookup block ≠ some ∅

variable {t : BlockTracker} {peer q : PeerId} {block b : Nat}

/-! ## What the operations do to the indexes -/

theorem peersAt_leave : (t.leave peer block).peersAt b = if b = block then (t.peersAt b).erase peer else t.peersAt b := by
  unfold leave peersAt
  by_cases hb : b = block
  · subst hb
    cases hl : t.peersByBlock.lookup b with
    | none => simp [hl]
    | some peers => by_cases he : peers.erase peer = ∅ <;> simp [he]
  · cases t.peersByBlock.lookup block with
    | none => simp [hb]
    | some peers => by_cases he : peers.erase peer = ∅ <;> simp [he, hb]

theorem nonempty_leave (h : ∀ b, t.peersByBlock.lookup b ≠ some ∅) :
    (t.leave peer block).peersByBlock.lookup b ≠ some ∅ := by
  unfold leave
  cases t.peersByBlock.lookup block with
  | none => exact h b
  | some peers =>
    by_cases hb : b = block
    · subst hb
      by_cases he : peers.erase peer = ∅ <;> simp [he]
    · by_cases he : peers.erase peer = ∅ <;> simpa [he, hb] using h b

/-- The sets after a peer has left that of its block. -/
theorem Indexed.mem_peersAt_leave (h : t.Indexed) (hl : t.blockByPeer.lookup peer = some block) :
    q ∈ (t.leave peer block).peersAt b ↔ q ≠ peer ∧ t.blockByPeer.lookup q = some b := by
  rw [peersAt_leave, ← h.inverse]
  by_cases hb : b = block
  · subst hb
    simp
  · rw [if_neg hb]
    refine ⟨fun hq => ⟨?_, hq⟩, And.right⟩
    rintro rfl
    have hother := (h.inverse q b).1 hq
    rw [hl] at hother
    exact hb (Option.some.inj hother).symm

theorem lookup_setBlockNumber :
    (t.setBlockNumber peer block).blockByPeer.lookup q = if q = peer then some block else t.blockByPeer.lookup q := by
  by_cases hq : q = peer
  · subst hq
    simp [setBlockNumber]
  · simp [setBlockNumber, hq]

theorem lookup_removePeer :
    (t.removePeer peer).blockByPeer.lookup q = if q = peer then none else t.blockByPeer.lookup q := by
  unfold removePeer
  cases hl : t.blockByPeer.lookup peer with
  | none =>
    by_cases hq : q = peer
    · subst hq
      simp [hl]
    · simp [hq]
  | some block =>
    by_cases hq : q = peer
    · subst hq
      simp
    · simp [hq]

/-! ## The indexes are inverse to each other -/

theorem indexed_setBlockNumber (h : t.Indexed) : (t.setBlockNumber peer block).Indexed := by
  -- the sets without the peer
  obtain ⟨left, hleft, hmem, hnonempty⟩ : ∃ left : BlockTracker,
      (t.setBlockNumber peer block).peersByBlock = left.peersByBlock.insert block (insert peer (left.peersAt block)) ∧
      (∀ q b, q ∈ left.peersAt b ↔ q ≠ peer ∧ t.blockByPeer.lookup q = some b) ∧
      ∀ b, left.peersByBlock.lookup b ≠ some ∅ := by
    unfold setBlockNumber
    cases hl : t.blockByPeer.lookup peer with
    | none =>
      refine ⟨t, rfl, fun q b => ?_, h.nonempty⟩
      rw [h.inverse]
      refine ⟨fun hq => ⟨?_, hq⟩, And.right⟩
      rintro rfl
      rw [hl] at hq
      cases hq
    | some oldBlock => exact ⟨t.leave peer oldBlock, rfl, fun q b => h.mem_peersAt_leave hl, fun b =>
        nonempty_leave h.nonempty⟩
  refine ⟨fun q b => ?_, fun b => ?_⟩
  · have hset : (t.setBlockNumber peer block).peersAt b =
        if b = block then insert peer (left.peersAt block) else left.peersAt b := by
      rw [peersAt, hleft]
      by_cases hb : b = block
      · subst hb
        simp
      · simp [hb, peersAt]
    rw [hset, lookup_setBlockNumber]
    by_cases hq : q = peer
    · subst hq
      by_cases hb : b = block
      · simp [hb]
      · simp [hb, Ne.symm hb, hmem]
    · by_cases hb : b = block
      · subst hb
        simp [hq, hmem]
      · simp [hq, hb, hmem]
  · rw [hleft]
    by_cases hb : b = block
    · subst hb
      simp
    · simpa [hb] using hnonempty b

theorem indexed_removePeer (h : t.Indexed) : (t.removePeer peer).Indexed := by
  refine ⟨fun q b => ?_, fun b => ?_⟩
  · rw [lookup_removePeer]
    unfold removePeer
    cases hl : t.blockByPeer.lookup peer with
    | none =>
      rw [h.inverse]
      by_cases hq : q = peer
      · subst hq
        simp [hl]
      · rw [if_neg hq]
    | some block =>
      have hmem := h.mem_peersAt_leave hl (q := q) (b := b)
      rw [peersAt] at hmem ⊢
      rw [hmem]
      by_cases hq : q = peer <;> simp [hq]
  · unfold removePeer
    cases t.blockByPeer.lookup peer with
    | none => exact h.nonempty b
    | some block => exact nonempty_leave h.nonempty

theorem run_indexed (ops : List Op) : (run ops).Indexed := by
  have hstep : ∀ (ops : List Op) {t : BlockTracker}, t.Indexed → (ops.foldl apply t).Indexed := by
    intro ops
    induction ops with
    | nil => exact fun h => h
    | cons op ops ih =>
      intro t h
      refine ih ?_
      cases op with
      | setBlockNumber peer block => exact indexed_setBlockNumber h
      | removePeer peer => exact indexed_removePeer h
  exact hstep ops ⟨by simp [peersAt], by simp⟩

/-- **The tracker knows what was last set.** -/
theorem run_lookup (ops : List Op) (peer : PeerId) : (run ops).blockByPeer.lookup peer = lastSet ops peer := by
  have hrecord : ∀ (t : BlockTracker) (op : Op),
      op.record (fun q => t.blockByPeer.lookup q) = fun q => (t.apply op).blockByPeer.lookup q := by
    intro t op
    funext q
    cases op with
    | setBlockNumber peer block => rw [apply, lookup_setBlockNumber, Op.record, Function.update_apply]
    | removePeer peer => rw [apply, lookup_removePeer, Op.record, Function.update_apply]
  have hfold : ops.foldl Op.record (fun q => (⟨∅, ∅⟩ : BlockTracker).blockByPeer.lookup q) =
      fun q => (run ops).blockByPeer.lookup q := List.foldl_hom (fun (t : BlockTracker) q => t.blockByPeer.lookup q) hrecord
  exact (congrFun hfold peer).symm

theorem mem_peersWithMinBlock (h : t.Indexed) :
    q ∈ t.peersWithMinBlock block ↔ ∃ b, t.blockByPeer.lookup q = some b ∧ block ≤ b := by
  simp only [peersWithMinBlock, Finset.mem_biUnion, Finset.mem_filter, List.mem_toFinset, h.inverse]
  constructor
  · rintro ⟨b, ⟨-, hb⟩, hq⟩
    exact ⟨b, hq, hb⟩
  · rintro ⟨b, hq, hb⟩
    refine ⟨b, ⟨?_, hb⟩, hq⟩
    rw [← AList.mem_keys, ← AList.lookup_isSome]
    by_contra hnone
    have hmem := (h.inverse q b).2 hq
    simp [peersAt, Option.not_isSome_iff_eq_none.1 hnone] at hmem

end BlockTracker

/-! ## The tracker of a server -/

namespace CapabilityServerImpl

variable {k : ForkCrates}

/-- What is done with the tables of a server. -/
inductive Op (k : ForkCrates) where
  | setupPeer (peer : PeerId) (p : Pipes)
  | teardownPeer (peer : PeerId)
  | acceptStatus (peer : PeerId) (v : StatusMessage k.ForkId)
  | setStatus (status : Option (StatusData × k.ForkFilter))

/-- A server after an operation. The assertion of `setup_peer` comes after the pipes are inserted. -/
def apply (s : CapabilityServerImpl k) : Op k → CapabilityServerImpl k
  | .setupPeer peer p => (s.setupPeer peer p).getD { s with peerPipes := s.peerPipes.insert peer p }
  | .teardownPeer peer => s.teardownPeer peer
  | .acceptStatus peer v => (s.acceptStatus peer v).toOption.getD s
  | .setStatus status => { s with statusMessage := status }

/-- The tracker is indexed, and has the peers that have pipes. -/
structure Tracks (s : CapabilityServerImpl k) : Prop where
  indexed : s.blockTracker.Indexed
  peers : ∀ peer, peer ∈ s.blockTracker.blockByPeer ↔ peer ∈ s.peerPipes

variable {s s' : CapabilityServerImpl k}

theorem new_tracks (k : ForkCrates) : (new k).Tracks := ⟨BlockTracker.run_indexed [], fun _ => by simp [new]⟩

theorem Tracks.of_eq (h : s.Tracks) (ht : s'.blockTracker = s.blockTracker) (hp : s'.peerPipes = s.peerPipes) :
    s'.Tracks := ⟨ht ▸ h.indexed, by rw [ht, hp]; exact h.peers⟩

theorem setupPeer_tracks (h : s.Tracks) {peer : PeerId} {p : Pipes} (hs : s.setupPeer peer p = some s') :
    s'.Tracks := by
  unfold setupPeer at hs
  split at hs <;> cases hs
  refine ⟨BlockTracker.indexed_setBlockNumber h.indexed, fun q => ?_⟩
  have hq := h.peers q
  rw [← AList.lookup_isSome] at hq ⊢
  rw [BlockTracker.lookup_setBlockNumber, AList.mem_insert]
  split <;> simp_all

theorem teardownPeer_tracks (h : s.Tracks) (peer : PeerId) : (s.teardownPeer peer).Tracks := by
  refine ⟨BlockTracker.indexed_removePeer h.indexed, fun q => ?_⟩
  have hq := h.peers q
  rw [← AList.lookup_isSome] at hq ⊢
  rw [teardownPeer, BlockTracker.lookup_removePeer, AList.mem_erase]
  split <;> simp_all

theorem acceptStatus_eq {peer : PeerId} {v : StatusMessage k.ForkId} (h : s.acceptStatus peer v = .ok s') :
    s'.blockTracker = s.blockTracker ∧ s'.peerPipes = s.peerPipes := by
  unfold acceptStatus at h
  split at h
  · split at h <;> cases h
    exact ⟨rfl, rfl⟩
  · cases h
    exact ⟨rfl, rfl⟩

theorem apply_tracks (h : s.Tracks) (op : Op k) : (s.apply op).Tracks := by
  cases op with
  | setupPeer peer p =>
    rw [apply]
    cases hs : s.setupPeer peer p with
    | none =>
      have hmem : peer ∈ s.peerPipes := by
        rw [setupPeer_eq_none, current] at hs
        rw [← AList.lookup_isSome]
        cases hl : s.peerPipes.lookup peer with
        | none => simp [hl] at hs
        | some _ => rfl
      refine ⟨h.indexed, fun q => ?_⟩
      rw [Option.getD_none, h.peers, AList.mem_insert]
      refine ⟨.inr, ?_⟩
      rintro (rfl | hq)
      · exact hmem
      · exact hq
    | some s' => exact setupPeer_tracks h hs
  | teardownPeer peer => exact teardownPeer_tracks h peer
  | acceptStatus peer v =>
    rw [apply]
    cases hv : s.acceptStatus peer v with
    | error reason => exact h
    | ok s' => exact h.of_eq (acceptStatus_eq hv).1 (acceptStatus_eq hv).2
  | setStatus status => exact h.of_eq rfl rfl

theorem run_tracks (ops : List (Op k)) : (ops.foldl apply (new k)).Tracks := by
  have hstep : ∀ (ops : List (Op k)) {s : CapabilityServerImpl k}, s.Tracks → (ops.foldl apply s).Tracks := by
    intro ops
    induction ops with
    | nil => exact fun h => h
    | cons op ops ih => exact fun h => ih (apply_tracks h op)
  exact hstep ops (new_tracks k)

/-- **The tracker.** After any operations its indexes are inverse to each other, without empty sets, and it finds the
peers by what was last set for them; and in a server, whatever is done with its tables, the tracked peers are those with
pipes. -/
theorem tracker_indexed (k : ForkCrates) :
    (∀ ops : List BlockTracker.Op,
      (∀ peer block, peer ∈ (BlockTracker.run ops).peersAt block ↔
        (BlockTracker.run ops).blockByPeer.lookup peer = some block) ∧
      (∀ block, (BlockTracker.run ops).peersByBlock.lookup block ≠ some ∅) ∧
      ∀ block peer, peer ∈ (BlockTracker.run ops).peersWithMinBlock block ↔
        ∃ b, BlockTracker.lastSet ops peer = some b ∧ block ≤ b) ∧
    ∀ (ops : List (Op k)) (peer : PeerId), peer ∈ (ops.foldl apply (new k)).blockTracker.blockByPeer ↔
      peer ∈ (ops.foldl apply (new k)).peerPipes := by
  refine ⟨fun ops => ?_, fun ops => (run_tracks ops).peers⟩
  have hindexed := BlockTracker.run_indexed ops
  refine ⟨hindexed.inverse, hindexed.nonempty, fun block peer => ?_⟩
  rw [BlockTracker.mem_peersWithMinBlock hindexed]
  simp only [BlockTracker.run_lookup]

end CapabilityServerImpl

/-! ## The server of a swarm -/

namespace Swarm

variable {k : ForkCrates} {s s' : Swarm k}

/-- A step does at most one thing with the tables of the server. -/
theorem server_of_step {e : Event k} (h : s.step e = some s') :
    s'.server = s.server ∨ ∃ op, s'.server = s.server.apply op := by
  cases steps_of_step h with
  | ban id | addPeer remoteId checkPeer | poll ha hf | drop ha hf | told ha hr ht | uncount ha hr | task hx h
  | handle hx hi | disconnect hx he | release hx he hs => exact .inl rfl
  | setStatus status => exact .inr ⟨.setStatus status, rfl⟩
  | incoming remoteId caps hs =>
    unfold incoming
    split
    · exact .inl rfl
    · split <;> exact .inl rfl
  | claim ha hf hs =>
    unfold claim
    split
    · exact .inl rfl
    · split <;> exact .inl rfl
  | adopt caps ha hf hs =>
    unfold adopt
    split <;> exact .inl rfl
  | giveUp ha hf hs =>
    unfold giveUp
    split <;> exact .inl rfl
  | reap ha hr ht hs =>
    unfold reap
    dsimp only
    split <;> exact .inl rfl
  | proceed hs h =>
    cases proceeds_of_proceed h with
    | register hu hserver =>
      exact .inr ⟨.setupPeer _ _, by rw [CapabilityServerImpl.apply, hserver, Option.getD_some]⟩
    | prepare | fail | spawnIngress | spawnEgress | spawnPinger | install => exact .inl rfl
  | @accept sid x v hx hi =>
    refine .inr ⟨.acceptStatus x.peer v, ?_⟩
    simp only [accept, CapabilityServerImpl.apply]
    cases s.server.acceptStatus x.peer v with
    | error reason => rfl
    | ok server => rfl
  | reply hx hi =>
    unfold lookupSender
    split <;> exact .inl rfl
  | @teardown sid x hx he => exact .inr ⟨.teardownPeer x.peer, rfl⟩

/-- **The tracker of a swarm** has the peers with pipes, in every run. -/
theorem run_tracks {maxPeers : Nat} {es : List (Event k)} (h : Runs.run step (new k maxPeers) es = some s) :
    s.server.Tracks := by
  have hstep : ∀ (s : Swarm k) e s', s.server.Tracks → s.step e = some s' → s'.server.Tracks := by
    intro s e s' ht hs
    rcases server_of_step hs with heq | ⟨op, heq⟩
    · exact heq ▸ ht
    · exact heq ▸ CapabilityServerImpl.apply_tracks ht op
  exact Runs.invariant hstep es (CapabilityServerImpl.new_tracks k) h

end Swarm

end EthereumSentry
