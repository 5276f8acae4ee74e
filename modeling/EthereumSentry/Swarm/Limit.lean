import EthereumSentry.Swarm.Ownership

/-!
# The peer limit

An entry is inserted at two places. `add_peer_inner` inserts its entry under the lock under which it has asked the node
filter; `handle_incoming_request` asks the filter, and inserts its entry at the end of `setup_peer_state` under the same
lock, so a place is kept for it meanwhile (`Limited`). So there are never more entries than `max_peers`, and none is
created for a peer that is banned (`peers_limited`).
-/

set_option autoImplicit false

namespace EthereumSentry

variable {k : ForkCrates}

/-! ## The number of entries -/

section Size

variable {mapping : AList fun _ : PeerId => PeerState} {p : PeerId}

theorem length_keys_insert_new (h : mapping.lookup p = none) (v : PeerState) :
    (mapping.insert p v).keys.length = mapping.keys.length + 1 := by
  have hp : p ∉ mapping.keys := by
    rw [← AList.mem_keys, ← AList.lookup_eq_none]
    exact h
  rw [AList.keys_insert, List.length_cons, List.erase_of_not_mem hp]

theorem length_keys_insert_old {w : PeerState} (h : mapping.lookup p = some w) (v : PeerState) :
    (mapping.insert p v).keys.length = mapping.keys.length := by
  have hp : p ∈ mapping.keys := by
    rw [← AList.mem_keys, ← AList.lookup_isSome, h]
    rfl
  rw [AList.keys_insert, List.length_cons, List.length_erase_of_mem hp]
  have := List.length_pos_of_mem hp
  omega

theorem length_keys_erase_le (mapping : AList fun _ : PeerId => PeerState) (p : PeerId) :
    (mapping.erase p).keys.length ≤ mapping.keys.length := by
  rw [AList.keys_erase]
  exact List.length_erase_le

end Size

namespace Swarm

/-! ## The invariant -/

/-- No step adds a peer without a check, or bans the peer of an incoming connection that is set up. -/
def Checked (s : Swarm k) (e : Event k) : Prop :=
  (∀ p, e ≠ .addPeer p false) ∧ ∀ u, s.setup = some u → u.attempt = none → e ≠ .ban u.peer

/-- **The entries are within the limit**, and there is a place for an incoming connection that is set up. -/
structure Limited (maxPeers : Nat) (s : Swarm k) : Prop where
  limit : s.nodeFilter.maxPeers = maxPeers
  checked : ∀ a ∈ s.attempts, a.checkPeer = true
  size : s.mapping.keys.length ≤ maxPeers
  room : ∀ u, s.setup = some u → u.attempt = none → s.mapping.keys.length < maxPeers
  allowed : ∀ u, s.setup = some u → u.attempt = none → u.peer ∉ s.nodeFilter.banList

variable {s s' : Swarm k} {maxPeers : Nat}

/-- The filter allows a peer that is not banned, while there is a place. -/
theorem allow_eq_true {f : MemoryNodeFilter} {n : Nat} {p : PeerId} :
    f.allow n p = true ↔ n < f.maxPeers ∧ p ∉ f.banList := by
  simp [MemoryNodeFilter.allow]

/-- A step that inserts nothing. -/
theorem Limited.of_le (h : s.Limited maxPeers) (hf : s'.nodeFilter = s.nodeFilter)
    (ha : ∀ a ∈ s'.attempts, a.checkPeer = true) (hm : s'.mapping.keys.length ≤ s.mapping.keys.length)
    (hs : ∀ u', s'.setup = some u' → u'.attempt = none →
      ∃ u, s.setup = some u ∧ u.attempt = none ∧ u.peer = u'.peer) : s'.Limited maxPeers where
  limit := hf ▸ h.limit
  checked := ha
  size := hm.trans h.size
  room u' hu' hn := by
    obtain ⟨u, hu, hn, -⟩ := hs u' hu' hn
    exact hm.trans_lt (h.room u hu hn)
  allowed u' hu' hn := by
    obtain ⟨u, hu, hn, hp⟩ := hs u' hu' hn
    rw [hf, ← hp]
    exact h.allowed u hu hn

/-- A step that keeps attempts, entries and the setup. -/
theorem Limited.of_same (h : s.Limited maxPeers) (hf : s'.nodeFilter = s.nodeFilter)
    (ha : s'.attempts = s.attempts) (hm : s'.mapping = s.mapping) (hs : s'.setup = s.setup) : s'.Limited maxPeers :=
  h.of_le hf (ha ▸ h.checked) (by rw [hm]) fun u hu hn => ⟨u, hs ▸ hu, hn, rfl⟩

/-- The attempts stay checked when one of them goes on. -/
theorem Limited.checked_set (h : s.Limited maxPeers) {cid : Nat} {a c : Attempt} (ha : s.attempts[cid]? = some a)
    (hc : c.checkPeer = a.checkPeer) : ∀ b ∈ s.attempts.set cid c, b.checkPeer = true := by
  intro b hb
  rcases List.mem_or_eq_of_mem_set hb with hb | rfl
  · exact h.checked b hb
  · rw [hc]
    exact h.checked a (List.mem_of_getElem? ha)

/-- A step in which one attempt goes on. -/
theorem Limited.of_set (h : s.Limited maxPeers) {cid : Nat} {a c : Attempt} (ha : s.attempts[cid]? = some a)
    (hc : c.checkPeer = a.checkPeer) (hf : s'.nodeFilter = s.nodeFilter)
    (hattempts : s'.attempts = s.attempts.set cid c) (hm : s'.mapping.keys.length ≤ s.mapping.keys.length)
    (hs : ∀ u', s'.setup = some u' → u'.attempt = none →
      ∃ u, s.setup = some u ∧ u.attempt = none ∧ u.peer = u'.peer) : s'.Limited maxPeers :=
  h.of_le hf (hattempts ▸ h.checked_set ha hc) hm hs

/-! ## Steps -/

theorem Limited.incoming (h : s.Limited maxPeers) (remoteId : PeerId)
    (caps : List (CapabilityName × Nat)) : (s.incoming remoteId caps).Limited maxPeers := by
  unfold Swarm.incoming
  split
  · exact h
  · split
    · rename_i hallow
      obtain ⟨hlt, hban⟩ := allow_eq_true.1 hallow
      rw [h.limit] at hlt
      refine ⟨h.limit, h.checked, h.size, fun u hu _ => hlt, fun u hu _ => ?_⟩
      cases hu
      exact hban
    · exact h

theorem Limited.claim (h : s.Limited maxPeers) (hs : s.setup = none) {cid : Nat} {a : Attempt}
    (ha : s.attempts[cid]? = some a) : (s.claim cid a).Limited maxPeers := by
  have hfinish : (s.finish cid a).Limited maxPeers :=
    h.of_set ha (c := { a with future := .finished, trigger := .dropped }) rfl rfl rfl le_rfl
      fun u hu hn => ⟨u, hu, hn, rfl⟩
  unfold Swarm.claim
  split
  · exact hfinish
  · rename_i hnone
    split
    · exact hfinish
    · rename_i hallow
      have hc := h.checked a (List.mem_of_getElem? ha)
      simp only [hc, Bool.true_and, Bool.not_eq_true', Bool.not_eq_false] at hallow
      obtain ⟨hlt, -⟩ := allow_eq_true.1 hallow
      rw [h.limit] at hlt
      refine ⟨h.limit, h.checked_set ha (c := { a with future := .dialing }) rfl, ?_, fun u hu => ?_,
        fun u hu => ?_⟩
      · simp only [length_keys_insert_new hnone]
        exact hlt
      · exact absurd hu (by simp [setAttempt, hs])
      · exact absurd hu (by simp [setAttempt, hs])

theorem Limited.install (h : s.Limited maxPeers) (ho : s.Owned) {u : Setup} (hs : s.setup = some u) :
    (s.install u).Limited maxPeers := by
  have hsize : (s.install u).mapping.keys.length ≤ maxPeers := by
    cases hattempt : u.attempt with
    | some cid =>
      obtain ⟨a, ha, hf, hp⟩ := ho.outgoing u cid hs hattempt
      have hentry := ho.running cid a ha (.inr hf)
      rw [hp] at hentry
      simp only [Swarm.install, length_keys_insert_old hentry]
      exact h.size
    | none =>
      simp only [Swarm.install, length_keys_insert_new (ho.incoming u hs hattempt)]
      exact h.room u hs hattempt
  have hchecked : ∀ a ∈ (s.install u).attempts, a.checkPeer = true := by
    intro a ha
    simp only [Swarm.install] at ha
    split at ha
    · rw [List.mem_iff_getElem?] at ha
      obtain ⟨i, hi⟩ := ha
      rw [List.getElem?_modify] at hi
      obtain ⟨b, hb, rfl⟩ := Option.map_eq_some_iff.1 hi
      have := h.checked b (List.mem_of_getElem? hb)
      split <;> exact this
    · exact h.checked a ha
  exact ⟨h.limit, hchecked, hsize, fun u' hu' => absurd hu' (by simp [Swarm.install]),
    fun u' hu' => absurd hu' (by simp [Swarm.install])⟩

/-- **Every checked step keeps the entries within the limit.** -/
theorem step_limited (ho : s.Owned) (h : s.Limited maxPeers) {e : Event k} (hc : s.Checked e)
    (hstep : s.step e = some s') : s'.Limited maxPeers := by
  by_cases hq : Quiet e
  · obtain ⟨hm, ha, hs, hf⟩ := step_quiet hq hstep
    exact h.of_same hf ha hm hs
  cases steps_of_step hstep with
  | ban id =>
    refine ⟨h.limit, h.checked, h.size, h.room, fun u hu hn => ?_⟩
    have hne : u.peer ≠ id := fun he => hc.2 u hu hn (he ▸ rfl)
    simp only [Finset.mem_insert, hne, false_or]
    exact h.allowed u hu hn
  | incoming remoteId caps => exact h.incoming remoteId caps
  | addPeer remoteId checkPeer =>
    refine h.of_le rfl (fun a ha => ?_) le_rfl fun u hu hn => ⟨u, hu, hn, rfl⟩
    rcases List.mem_append.1 ha with ha | ha
    · exact h.checked a ha
    · obtain rfl := List.mem_singleton.1 ha
      cases checkPeer with
      | true => rfl
      | false => exact absurd rfl (hc.1 remoteId)
  | @poll cid a ha =>
    exact h.of_set ha (c := { a with future := .counted }) rfl rfl rfl le_rfl fun u hu hn => ⟨u, hu, hn, rfl⟩
  | claim ha hf hs => exact h.claim hs ha
  | @adopt cid a caps ha hf =>
    simp only [Swarm.adopt, ho.lookup_eq ha hf]
    refine h.of_set ha (c := { a with future := .settingUp }) rfl rfl rfl le_rfl fun u hu hn => ?_
    cases hu
    cases hn
  | @giveUp cid a ha hf =>
    simp only [Swarm.giveUp, ho.lookup_eq ha hf]
    exact h.of_set ha (c := { a with future := .finished, trigger := .dropped }) rfl rfl rfl
      (length_keys_erase_le _ _) fun u hu hn => ⟨u, hu, hn, rfl⟩
  | @drop cid a ha =>
    exact h.of_set ha (c := { a with future := .finished, trigger := .dropped }) rfl rfl rfl le_rfl
      fun u hu hn => ⟨u, hu, hn, rfl⟩
  | @told cid a ha =>
    exact h.of_set ha (c := { a with reaper := .reaped }) rfl rfl rfl le_rfl fun u hu hn => ⟨u, hu, hn, rfl⟩
  | @reap cid a ha =>
    unfold Swarm.reap
    dsimp only
    split
    · exact h.of_set ha (c := { a with reaper := .reaped }) rfl rfl rfl (length_keys_erase_le _ _)
        fun u hu hn => ⟨u, hu, hn, rfl⟩
    · exact h.of_set ha (c := { a with reaper := .reaped }) rfl rfl rfl le_rfl fun u hu hn => ⟨u, hu, hn, rfl⟩
  | @uncount cid a ha =>
    exact h.of_set ha (c := { a with reaper := .done }) rfl rfl rfl le_rfl fun u hu hn => ⟨u, hu, hn, rfl⟩
  | @proceed u _ hs hproceed =>
    rcases proceed_cases hproceed with rfl | ⟨hm, ha, hf, hsetup⟩
    · exact h.install ho hs
    · refine h.of_le hf (ha ▸ h.checked) (by rw [hm]) fun u' hu' hn => ⟨u, hs, ?_⟩
      rcases hsetup with hsetup | ⟨stage, hsetup⟩
      · rw [hsetup, hs] at hu'
        cases hu'
        exact ⟨hn, rfl⟩
      · rw [hsetup] at hu'
        cases hu'
        exact ⟨hn, rfl⟩
  | release => exact h.of_le rfl h.checked (length_keys_erase_le _ _) fun u hu hn => ⟨u, hu, hn, rfl⟩
  | setStatus | task | handle | accept | reply | disconnect | teardown => exact absurd trivial hq

/-- **No entry is created for a peer that is banned.** -/
theorem created_allowed (hsound : s.Sound) (ho : s.Owned) (h : s.Limited maxPeers) {e : Event k}
    (hstep : s.step e = some s') {p : PeerId} (hp : s.mapping.lookup p = none) (hp' : s'.mapping.lookup p ≠ none) :
    p ∉ s.nodeFilter.banList := by
  cases step_changes hsound ho hstep p with
  | same hsame => exact absurd (hsame.trans hp) hp'
  | claimed _ _ ha _ hallow => exact (allow_eq_true.1 (hallow (h.checked _ (List.mem_of_getElem? ha)))).2
  | accepted _ _ hs hu hpeer => exact hpeer ▸ h.allowed _ hs hu
  | owner hentry =>
    rw [hp] at hentry
    cases hentry
  | released hentry =>
    rw [hp] at hentry
    cases hentry

/-! ## Runs -/

theorem new_limited (k : ForkCrates) (maxPeers : Nat) : (new k maxPeers).Limited maxPeers where
  limit := rfl
  checked a ha := by simp [new] at ha
  size := by simp [new]
  room u hu := by simp [new] at hu
  allowed u hu := by simp [new] at hu

/-- **The peer limit**: in every run of checked steps from a new swarm there are at most `max_peers` entries, connecting
and connected together, and a step creates no entry for a peer that the node filter reports banned. -/
theorem peers_limited {maxPeers : Nat} {es : List (Event k)} (hes : Runs.Along step Checked (new k maxPeers) es)
    (h : Runs.run step (new k maxPeers) es = some s) :
    s.mapping.keys.length ≤ maxPeers ∧ ∀ e s', s.step e = some s' → ∀ p, s.mapping.lookup p = none →
      s'.mapping.lookup p ≠ none → p ∉ s.nodeFilter.banList := by
  have hstep : ∀ (s : Swarm k) (e : Event k) (s' : Swarm k), (s.Sound ∧ s.Owned) ∧ s.Limited maxPeers → s.Checked e →
      s.step e = some s' → (s'.Sound ∧ s'.Owned) ∧ s'.Limited maxPeers := fun s e s' hi hc he =>
    ⟨⟨step_sound s e s' hi.1.1 he, step_owned hi.1.1 hi.1.2 he⟩, step_limited hi.1.2 hi.2 hc he⟩
  obtain ⟨⟨hsound, ho⟩, hl⟩ := Runs.Along.invariant hstep es hes
    ⟨⟨new_sound k maxPeers, new_owned k maxPeers⟩, new_limited k maxPeers⟩ h
  exact ⟨hl.size, fun e s' he p hp hp' => created_allowed hsound ho hl he hp hp'⟩

section Example

/-- Another peer. -/
def otherPeer : PeerId := FixedBytes.ofNat 64 2

/-- A peer connects, and an attempt at another one asks the filter. -/
def connectTwo : List (Event genesisForks) := connectIncoming ++ [.addPeer otherPeer true, .poll 0, .claim 0]

theorem connectTwo_checked (s : Swarm genesisForks) (e : Event genesisForks) (h : e ∈ connectTwo) : s.Checked e := by
  simp only [connectTwo, connectIncoming, List.cons_append, List.nil_append, List.mem_cons, List.not_mem_nil,
    or_false] at h
  constructor
  · rintro p rfl
    simp at h
  · rintro u - - rfl
    simp at h

/-- The second one finds no place among one peer. -/
theorem one_peer_limited : ∃ s, Runs.run step (new genesisForks 1) connectTwo = some s ∧
    s.attempts = [⟨otherPeer, true, .finished, .dropped, .waiting⟩] ∧ s.mapping.keys.length ≤ 1 := by
  have hrun : ∃ s, Runs.run step (new genesisForks 1) connectTwo = some s ∧
      s.attempts = [⟨otherPeer, true, .finished, .dropped, .waiting⟩] := ⟨_, rfl, rfl⟩
  obtain ⟨s, hs, hattempts⟩ := hrun
  exact ⟨s, hs, hattempts, (peers_limited (.of_mem fun e he s => connectTwo_checked s e he) hs).1⟩

end Example

end Swarm

end EthereumSentry
