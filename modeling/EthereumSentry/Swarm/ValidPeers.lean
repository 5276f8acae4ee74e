import EthereumSentry.Swarm.Alternation

/-!
# Valid peers

A peer is valid when it is registered and its present session has accepted a compatible `Status` (`Validated`). The
ingress router does not look at the pipes before it inserts the peer, so it can insert it after its session is torn down
(`Stale`). `validated_iff` says that in a run all valid peers are as they should be throughout exactly when no step of
the run is such an insertion.
-/

set_option autoImplicit false

namespace EthereumSentry

variable {k : ForkCrates}

namespace Swarm

/-- Every valid peer has pipes, and its present session has accepted a compatible `Status`. -/
structure Validated (s : Swarm k) : Prop where
  subset : ∀ p ∈ s.server.validPeers, p ∈ s.server.peerPipes
  accepted : ∀ p ∈ s.server.validPeers, ∃ sid x, s.server.current p = some sid ∧ s.sessions[sid]? = some x ∧
    x.accepted = true

/-- The ingress router of the session is about to insert its peer. -/
def Inserts (s : Swarm k) (x : Session k) : Prop :=
  ∃ v data filter, x.ingress = .accepting v ∧ s.server.statusMessage = some (data, filter) ∧
    k.validate filter v.forkId = true

/-- The session is the present one of its peer, or the present one has accepted a compatible `Status` itself. -/
def Covered (s : Swarm k) (sid : Nat) (x : Session k) : Prop :=
  ∃ sid', s.server.current x.peer = some sid' ∧
    (sid' = sid ∨ ∃ y, s.sessions[sid']? = some y ∧ y.accepted = true)

/-- The ingress router of a session that was torn down inserts its peer. -/
def Stale (s : Swarm k) (e : Event k) : Prop :=
  ∃ sid x, e = .accept sid ∧ s.sessions[sid]? = some x ∧ s.Inserts x ∧ ¬s.Covered sid x

variable {s s' : Swarm k}

/-- A peer with a session has pipes. -/
theorem mem_peerPipes {p : PeerId} {sid : Nat} (h : s.server.current p = some sid) : p ∈ s.server.peerPipes := by
  obtain ⟨pipes, hp, -⟩ := Option.map_eq_some_iff.1 h
  rw [← AList.lookup_isSome, hp]
  rfl

/-- It is enough that the present sessions have accepted a `Status`. -/
theorem Validated.of_accepted (h : ∀ p ∈ s.server.validPeers, ∃ sid x, s.server.current p = some sid ∧
    s.sessions[sid]? = some x ∧ x.accepted = true) : s.Validated :=
  ⟨fun p hp => by
    obtain ⟨sid, -, hc, -⟩ := h p hp
    exact mem_peerPipes hc, h⟩

/-! ## Steps that insert no peer -/

/-- A step after which no peer is newly valid, the valid peers have their sessions, and no session has lost what it has
accepted. -/
structure Extends (s s' : Swarm k) : Prop where
  valid : s'.server.validPeers ⊆ s.server.validPeers
  current : ∀ p ∈ s'.server.validPeers, ∀ sid, s.server.current p = some sid → s'.server.current p = some sid
  sessions : ∀ (sid : Nat) x, s.sessions[sid]? = some x →
    ∃ x', s'.sessions[sid]? = some x' ∧ (x.accepted = true → x'.accepted = true)

/-- A step that touches neither the valid peers, nor the pipes, nor the sessions. -/
theorem Extends.of_eq (hv : s'.server.validPeers = s.server.validPeers) (hc : s'.server.current = s.server.current)
    (hs : s'.sessions = s.sessions) : s.Extends s' :=
  ⟨hv.subset, fun _ _ _ h => hc ▸ h, fun _ x h => ⟨x, hs ▸ h, id⟩⟩

/-- Such a step keeps the valid peers as they should be. -/
theorem Extends.validated (h : s.Extends s') (hv : s.Validated) : s'.Validated := by
  refine .of_accepted fun p hp => ?_
  obtain ⟨sid, x, hc, hx, ha⟩ := hv.accepted p (h.valid hp)
  obtain ⟨x', hx', ha'⟩ := h.sessions sid x hx
  exact ⟨sid, x', h.current p hp sid hc, hx', ha' ha⟩

/-- The other sessions stay, and the one that is set has accepted no less. -/
theorem sessions_setSession {sid : Nat} {x : Session k} (hx : s.sessions[sid]? = some x) (x' : Session k)
    (ha : x.accepted = true → x'.accepted = true) (sid' : Nat) (y : Session k) (hy : s.sessions[sid']? = some y) :
    ∃ y', (s.sessions.set sid x')[sid']? = some y' ∧ (y.accepted = true → y'.accepted = true) := by
  by_cases he : sid' = sid
  · subst he
    rw [hx] at hy
    cases hy
    exact ⟨x', by rw [List.getElem?_set_self (List.getElem?_eq_some_iff.1 hx).1], ha⟩
  · exact ⟨y, by rw [List.getElem?_set_ne (Ne.symm he), hy], id⟩

/-- A step that sets one session. -/
theorem Extends.of_set {sid : Nat} {x x' : Session k} (hx : s.sessions[sid]? = some x)
    (hv : s'.server.validPeers = s.server.validPeers) (hc : s'.server.current = s.server.current)
    (hs : s'.sessions = s.sessions.set sid x') (ha : x.accepted = true → x'.accepted = true) : s.Extends s' :=
  ⟨hv.subset, fun _ _ _ h => hc ▸ h, hs ▸ sessions_setSession hx x' ha⟩

/-- A step that adds a session. -/
theorem Extends.of_append {x : Session k} (hv : s'.server.validPeers = s.server.validPeers)
    (hc : s'.server.current = s.server.current) (hs : s'.sessions = s.sessions ++ [x]) : s.Extends s' :=
  ⟨hv.subset, fun _ _ _ h => hc ▸ h, fun _ y hy =>
    ⟨y, hs ▸ (List.getElem?_append_left (List.getElem?_eq_some_iff.1 hy).1).trans hy, id⟩⟩

theorem proceed_extends {u : Setup} (h : s.proceed u = some s') : s.Extends s' := by
  cases proceeds_of_proceed h with
  | prepare | fail | install => exact .of_eq rfl rfl rfl
  | register hu hserver =>
    obtain ⟨hnone, hvalid, hcurrent⟩ := CapabilityServerImpl.setupPeer_eq_some hserver
    refine ⟨hvalid.subset, fun p _ sid hc => ?_, fun _ x h => ⟨x, h, id⟩⟩
    have hp : p ≠ u.peer := fun he => by
      rw [he, hnone] at hc
      cases hc
    rw [hcurrent p, if_neg hp, hc]
  | spawnIngress hu hx | spawnEgress hu hx | spawnPinger hu hx => exact .of_set hx rfl rfl rfl id

/-- Tearing down takes the peer from the valid ones. -/
theorem teardown_extends {sid : Nat} {x : Session k} (hx : s.sessions[sid]? = some x) :
    s.Extends { s.setSession sid { x with egress := .tornDown } with server := s.server.teardownPeer x.peer } := by
  refine ⟨Finset.erase_subset _ _, fun p hp sid' hc => ?_, sessions_setSession hx _ id⟩
  have hne : p ≠ x.peer := Finset.ne_of_mem_erase hp
  rw [CapabilityServerImpl.current_teardownPeer, if_neg hne, hc]

/-- No step but an insertion makes a peer valid. -/
theorem step_extends {e : Event k} (he : ∀ sid, e ≠ .accept sid) (h : s.step e = some s') : s.Extends s' := by
  cases steps_of_step h with
  | ban | setStatus | addPeer | poll | drop | told | uncount => exact .of_eq rfl rfl rfl
  | incoming remoteId caps =>
    unfold incoming
    split
    · exact .of_eq rfl rfl rfl
    · split
      · exact .of_append rfl rfl rfl
      · exact .of_eq rfl rfl rfl
  | claim =>
    unfold claim
    split
    · exact .of_eq rfl rfl rfl
    · split <;> exact .of_eq rfl rfl rfl
  | adopt =>
    unfold adopt
    split
    · exact .of_append rfl rfl rfl
    · exact .of_eq rfl rfl rfl
  | giveUp =>
    unfold giveUp
    split <;> exact .of_eq rfl rfl rfl
  | reap =>
    unfold reap
    dsimp only
    split <;> exact .of_eq rfl rfl rfl
  | proceed hs hproceed => exact proceed_extends hproceed
  | task hx htask => exact .of_set hx rfl rfl rfl fun ha => by rw [(Session.step_keeps htask).2.2, ha]
  | accept => exact absurd rfl (he _)
  | reply hx =>
    unfold lookupSender
    split <;> exact .of_set hx rfl rfl rfl id
  | handle hx | disconnect hx | release hx => exact .of_set hx rfl rfl rfl id
  | teardown hx => exact teardown_extends hx

/-! ## Insertions -/

/-- An insertion leaves the valid peers as they should be exactly when the session is covered. -/
theorem insert_validated {sid : Nat} {x : Session k} (hx : s.sessions[sid]? = some x) (hv : s.Validated) :
    Validated { s.setSession sid { x with ingress := .waiting, accepted := true } with
      server := { s.server with validPeers := insert x.peer s.server.validPeers } } ↔ s.Covered sid x := by
  have hself : (s.sessions.set sid { x with ingress := .waiting, accepted := true })[sid]? =
      some { x with ingress := .waiting, accepted := true } :=
    List.getElem?_set_self (List.getElem?_eq_some_iff.1 hx).1
  have hkeep := sessions_setSession hx { x with ingress := .waiting, accepted := true } fun _ => rfl
  constructor
  · intro h
    obtain ⟨sid', y, hc, hy, ha⟩ := h.accepted x.peer (Finset.mem_insert_self ..)
    refine ⟨sid', hc, ?_⟩
    by_cases he : sid' = sid
    · exact .inl he
    · refine .inr ⟨y, ?_, ha⟩
      simpa only [setSession, List.getElem?_set_ne (Ne.symm he)] using hy
  · rintro ⟨sid', hc, hcov⟩
    refine .of_accepted fun p hp => ?_
    rcases Finset.mem_insert.1 hp with rfl | hp
    · rcases hcov with rfl | ⟨y, hy, ha⟩
      · exact ⟨sid', _, hc, hself, rfl⟩
      · obtain ⟨y', hy', ha'⟩ := hkeep sid' y hy
        exact ⟨sid', y', hc, hy', ha' ha⟩
    · obtain ⟨sid'', y, hc', hy, ha⟩ := hv.accepted p hp
      obtain ⟨y', hy', ha'⟩ := hkeep sid'' y hy
      exact ⟨sid'', y', hc', hy', ha' ha⟩

/-- The ingress router inserts its peer. -/
theorem accept_of_inserts {sid : Nat} {x : Session k} {v : StatusMessage k.ForkId} (hi : x.ingress = .accepting v)
    (h : s.Inserts x) : s.accept sid x v = { s.setSession sid { x with ingress := .waiting, accepted := true } with
      server := { s.server with validPeers := insert x.peer s.server.validPeers } } := by
  obtain ⟨v', data, filter, hv, hstatus, hvalid⟩ := h
  rw [hi] at hv
  cases hv
  simp only [accept, CapabilityServerImpl.acceptStatus, hstatus, hvalid, if_true, Option.isSome_some, Bool.or_true]

/-- The ingress router makes no peer valid. -/
theorem accept_of_not_inserts (sid : Nat) {x : Session k} {v : StatusMessage k.ForkId} (hi : x.ingress = .accepting v)
    (h : ¬s.Inserts x) : ∃ y, s.accept sid x v = s.setSession sid y ∧ (x.accepted = true → y.accepted = true) := by
  unfold accept CapabilityServerImpl.acceptStatus
  split
  · rename_i server hserver
    split at hserver
    · rename_i data filter hstatus
      split at hserver
      · rename_i hvalid
        exact absurd ⟨v, data, filter, hi, hstatus, hvalid⟩ h
      · cases hserver
    · cases hserver
      exact ⟨_, rfl, fun ha => by simp only [ha, Bool.true_or]⟩
  · exact ⟨_, rfl, id⟩

/-- The ingress router leaves the valid peers as they should be, unless it inserts one of a session that is not
covered. -/
theorem accept_validated {sid : Nat} {x : Session k} {v : StatusMessage k.ForkId} (hx : s.sessions[sid]? = some x)
    (hi : x.ingress = .accepting v) (hv : s.Validated) :
    (s.accept sid x v).Validated ↔ ¬(s.Inserts x ∧ ¬s.Covered sid x) := by
  by_cases hins : s.Inserts x
  · rw [accept_of_inserts hi hins, insert_validated hx hv]
    exact ⟨fun h hn => hn.2 h, fun h => by_contra fun hn => h ⟨hins, hn⟩⟩
  · obtain ⟨y, heq, ha⟩ := accept_of_not_inserts sid hi hins
    have hext : s.Extends (s.setSession sid y) := .of_set hx rfl rfl rfl ha
    rw [heq]
    exact iff_of_true (hext.validated hv) fun h => hins h.1

/-- **A step keeps the valid peers as they should be** exactly when it inserts no peer of a session torn down. -/
theorem step_validated (hv : s.Validated) (e : Event k) :
    (∀ s', s.step e = some s' → s'.Validated) ↔ ¬s.Stale e := by
  by_cases he : ∀ sid, e ≠ .accept sid
  · refine iff_of_true (fun s' h => (step_extends he h).validated hv) ?_
    rintro ⟨sid, _, h, -⟩
    exact he sid h
  · obtain ⟨sid, rfl⟩ := not_forall_not.1 he
    constructor
    · rintro h ⟨sid', x, hsid, hx, hi⟩
      cases hsid
      obtain ⟨v, data, filter, hv', -⟩ := hi.1
      have hstep : s.step (.accept sid) = some (s.accept sid x v) := by simp only [step, hx, Option.bind_some, hv']
      exact (accept_validated hx hv' hv).1 (h _ hstep) hi
    · intro hns s' h
      cases steps_of_step h with
      | accept hx hi => exact (accept_validated hx hi hv).2 fun h => hns ⟨sid, _, rfl, hx, h⟩

/-- **The valid peers in runs**: in a run of a new swarm, every valid peer is registered, and its present session has
accepted a compatible `Status`, in all states exactly when the run inserts no peer of a session that was torn down. -/
theorem validated_iff (maxPeers : Nat) (es : List (Event k)) :
    Runs.Always step Validated (new k maxPeers) es ↔
      Runs.Along step (fun s e => ¬s.Stale e) (new k maxPeers) es :=
  Runs.always_iff_along (fun _ _ _ _ _ => trivial) (fun _ e _ hv => step_validated hv e) es trivial
    (.of_accepted fun p hp => by simp [new, CapabilityServerImpl.new] at hp)

/-- A `Status` that is handled while the session is torn down. -/
def lateStatus : List (Event genesisForks) :=
  connectIncoming ++ [.task 0 (.receive (.message ⟨0, genesisStatusBytes⟩)), .handle 0,
    .task 0 (.select (.event (.disconnect .disconnectRequested))), .task 0 (.flush true), .disconnect 0, .teardown 0,
    .accept 0]

/-- The peer is then valid without pipes. -/
theorem valid_without_pipes : ¬∀ (maxPeers : Nat) (es : List (Event genesisForks)),
    Runs.Always step Validated (new genesisForks maxPeers) es := by
  intro h
  have hrun : (Runs.run step (new genesisForks 10) lateStatus).map (fun s =>
      decide (samplePeer ∈ s.server.validPeers ∧ samplePeer ∉ s.server.peerPipes)) = some true := by decide +kernel
  obtain ⟨s, hs, hlate⟩ := Option.map_eq_some_iff.1 hrun
  obtain ⟨hv, hp⟩ := of_decide_eq_true hlate
  exact hp (((h 10 lateStatus).run hs).subset samplePeer hv)

end Swarm

end EthereumSentry
