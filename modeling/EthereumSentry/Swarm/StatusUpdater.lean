import EthereumSentry.Sentry.Grpc
import EthereumSentry.Swarm.Outbound

/-!
# The status updater

`src/src/main.rs`, with `src/src/services/control/grpc.rs`: the task that keeps the status message up to date. It asks
the control for the status data and falls back to the data provider, and it resolves the height of the best block. When
one of these fails, there is no status message until a later round succeeds.

`no_status_no_peers` says what this means for the peers: in any run, nobody becomes valid in the meantime, and a session
that begins in it is sent a disconnect and nothing else.
-/

set_option autoImplicit false

namespace EthereumSentry

open Function (update)

variable {k : ForkCrates}

/-! ## The sources -/

/-- `StatusData`, with its forks. -/
structure FetchedStatus where
  data : StatusData
  forks : Finset Nat

/-- What the control answers to `get_status`. -/
structure ControlStatus where
  networkId : Nat
  totalDifficulty : Bytes
  bestHash : Bytes
  /-- The genesis hash and the forks. -/
  forkData : Option (Bytes × List Nat)

/-- `GrpcControl::get_status_data`, for an answer of the control. -/
def GrpcControl.getStatusData (k : ForkCrates) (status : ControlStatus) : Except String FetchedStatus := do
  let (genesis, forks) ← status.forkData.elim (.error "no fork data") .ok
  let totalDifficulty ← (k.parseU256 (k.hexEncode status.totalDifficulty)).elim (.error "invalid length") .ok
  let bestHash ← (k.parseHash 32 (k.hexEncode status.bestHash)).elim (.error "invalid length") .ok
  let genesis ← (k.parseHash 32 (k.hexEncode genesis)).elim (.error "invalid length") .ok
  return ⟨⟨status.networkId, totalDifficulty, bestHash, genesis⟩, forks.toFinset⟩

/-- `dyn Control`, with what the client returns in a round. -/
inductive DynControl where
  | dummy
  | grpc (status : Except String ControlStatus)

/-- `Control::get_status_data`. -/
def DynControl.getStatusData (k : ForkCrates) : DynControl → Except String FetchedStatus
  | .dummy => .error "Not implemented"
  | .grpc status => status.bind (GrpcControl.getStatusData k)

/-- A round of the status updater: the status data of the control or else of the data provider, and the fork filter at
the height of the best block. -/
def fetchStatus (newFilter : UInt64 → H256 → Finset Nat → k.ForkFilter)
    (control : DynControl) (dataProvider : Except String FetchedStatus)
    (resolveBlockHeight : H256 → Except String (Option UInt64)) : Except String (StatusData × k.ForkFilter) := do
  let status ← match control.getStatusData k with
    | .ok status => .ok status
    | .error _ => dataProvider
  match ← resolveBlockHeight status.data.bestHash with
  | some bestBlock => return (status.data, newFilter bestBlock status.data.genesis status.forks)
  | none => throw "invalid best hash"

/-- What the status updater writes. -/
def writeStatus (fetched : Except String (StatusData × k.ForkFilter)) : Event k := .setStatus fetched.toOption

/-! ## Without a status -/

/-- What a session is sent when there is no status. -/
abbrev refusal : List OutboundEvent := [.disconnect .disconnectRequested]

theorem CapabilityServerImpl.firstEvents_none {server : CapabilityServerImpl k} {caps : List (CapabilityName × Nat)}
    {firstEvents : List OutboundEvent} (hnone : server.statusMessage = none)
    (h : server.firstEvents caps = some firstEvents) : firstEvents = refusal := by
  rw [CapabilityServerImpl.firstEvents, hnone] at h
  exact (Option.some.inj h).symm

namespace Swarm

variable {s s' : Swarm k}

/-- There is no status, and nobody is valid who was not before. -/
def Closed (s s' : Swarm k) : Prop := s'.server.statusMessage = none ∧ s'.server.validPeers ⊆ s.server.validPeers

/-- A step without a status, in which none is set. -/
theorem step_closed (hnone : s.server.statusMessage = none) {e : Event k} (h : s.step e = some s')
    (he : ∀ status, e ≠ .setStatus (some status)) : s.Closed s' := by
  cases steps_of_step h with
  | ban id | addPeer remoteId checkPeer | poll ha hf | drop ha hf | told ha hr ht | uncount ha hr | task hx h
  | handle hx hi | disconnect hx he | release hx he hs => exact ⟨hnone, subset_rfl⟩
  | setStatus status =>
    cases status with
    | none => exact ⟨rfl, subset_rfl⟩
    | some status => exact absurd rfl (he status)
  | incoming remoteId caps hs =>
    unfold incoming
    split
    · exact ⟨hnone, subset_rfl⟩
    · split <;> exact ⟨hnone, subset_rfl⟩
  | claim ha hf hs =>
    unfold claim
    split
    · exact ⟨hnone, subset_rfl⟩
    · split <;> exact ⟨hnone, subset_rfl⟩
  | adopt caps ha hf hs =>
    unfold adopt
    split <;> exact ⟨hnone, subset_rfl⟩
  | giveUp ha hf hs =>
    unfold giveUp
    split <;> exact ⟨hnone, subset_rfl⟩
  | reap ha hr ht hs =>
    unfold reap
    dsimp only
    split <;> exact ⟨hnone, subset_rfl⟩
  | proceed hs h =>
    cases proceeds_of_proceed h with
    | register hu hserver =>
      unfold CapabilityServerImpl.setupPeer at hserver
      split at hserver <;> cases hserver
      exact ⟨hnone, subset_rfl⟩
    | prepare | fail | spawnIngress | spawnEgress | spawnPinger | install => exact ⟨hnone, subset_rfl⟩
  | @accept sid x v hx hi =>
    -- the `Status` is decoded and not compared with anything
    have haccept : s.server.acceptStatus x.peer v = .ok s.server := by rw [CapabilityServerImpl.acceptStatus, hnone]
    rw [accept, haccept]
    exact ⟨hnone, subset_rfl⟩
  | reply hx hi =>
    unfold lookupSender
    split <;> exact ⟨hnone, subset_rfl⟩
  | @teardown sid x hx he => exact ⟨hnone, Finset.erase_subset ..⟩

end Swarm

namespace Outbound

variable {s s' : Outbound k}

/-- A step of the swarm that sends a reply at most, and a step of a sender or of an egress router, keep what comes first
out of a session. -/
theorem first_of_step (hs : s.Sound) {a : Action k} (h : s.step a = some s') (ha : a ≠ .swarm .proceed) (sid : Nat) :
    (s'.outboxes sid).line.first = (s.outboxes sid).line.first := by
  have hset : ∀ (sid' : Nat) (o : Outbox), o.line.first = (s.outboxes sid').line.first →
      ((s.set sid' o).outboxes sid).line.first = (s.outboxes sid).line.first := by
    intro sid' o ho
    by_cases hsid : sid = sid'
    · subst hsid
      simpa [Outbound.set] using ho
    · simp [Outbound.set, hsid]
  have hlookup : ∀ peer event, ((s.lookup peer event).outboxes sid).line.first = (s.outboxes sid).line.first := by
    intro peer event
    unfold lookup
    split
    · exact hset _ _ rfl
    · rfl
  cases a with
  | swarm e =>
    simp only [step] at h
    split at h
    · cases h
    · obtain ⟨t, -, rfl⟩ := Option.map_eq_some_iff.1 h
      show ((s.carry e).outboxes sid).line.first = (s.outboxes sid).line.first
      unfold carry
      split
      · exact absurd rfl ha
      · split
        · split
          · exact hlookup ..
          · rfl
        · rfl
      · rfl
  | send peer event =>
    cases h
    exact hlookup ..
  | accept sid' i =>
    obtain ⟨event, -, h⟩ := Option.bind_eq_some_iff.1 h
    split at h <;> cases h
    exact hset _ _ rfl
  | cancel sid' i =>
    obtain ⟨event, -, rfl⟩ := Option.map_eq_some_iff.1 h
    exact hset _ _ rfl
  | poll sid' =>
    obtain ⟨x, -, h⟩ := Option.bind_eq_some_iff.1 h
    split at h
    · obtain ⟨_, -, rfl⟩ := Option.map_eq_some_iff.1 h
      exact hset _ _ rfl
    · cases h
  | next sid' =>
    simp only [step] at h
    split at h
    · rename_i sid'' hn
      obtain rfl := (hs.outbox sid').own sid'' hn
      obtain ⟨⟨event, t⟩, hpoll, h⟩ := Option.bind_eq_some_iff.1 h
      obtain ⟨u, hstep, rfl⟩ := Option.map_eq_some_iff.1 h
      obtain ⟨x, d, hx, he, -⟩ := Swarm.step_event hstep
      obtain ⟨line, htake, rfl⟩ := hs.pollStream hx he hpoll
      obtain ⟨hfirst, -⟩ := Line.take_eq_some htake
      have hhand : ((s.set sid'' { s.outboxes sid'' with line := line }).hand sid'' event).outboxes =
          (s.set sid'' { s.outboxes sid'' with
            line := line
            handed := (s.outboxes sid'').handed ++ [event]
            next := if event.isDisconnect then .completed else .created }).outboxes := by
        simp [hand, Outbound.set]
      show (((s.set sid'' { s.outboxes sid'' with line := line }).hand sid'' event).outboxes sid).line.first = _
      rw [hhand]
      exact hset _ _ hfirst
    · cases h

/-- Since some state without a status, sessions from a number on have begun, and they are refused. -/
structure Refuses (start : Nat) (s : Outbound k) : Prop where
  sound : s.Sound
  prepared : ∀ u firstEvents, s.swarm.setup = some u → start ≤ u.session → u.stage = .prepared firstEvents →
    firstEvents = refusal
  first : ∀ sid, start ≤ sid → ¬s.swarm.Unregistered sid → (s.outboxes sid).line.first = refusal

/-- What the sink of a refused session gets. -/
theorem Refuses.handed {start : Nat} (h : Refuses start s) {sid : Nat} (hsid : start ≤ sid) :
    (s.outboxes sid).handed <+: refusal := by
  by_cases hun : s.swarm.Unregistered sid
  · rw [(h.sound.unused sid hun).handed]
    exact List.nil_prefix
  · have ho := h.sound.outbox sid
    have hprefix := ho.ordered.taken_prefix (ho.taken ▸ ho.stops)
    rw [ho.taken, h.first sid hsid hun] at hprefix
    exact hprefix

/-- The parts of `setup_peer_state` keep the sessions refused. -/
theorem Refuses.proceed {start : Nat} (h : Refuses start s) (hnone : s.swarm.server.statusMessage = none) {t : Swarm k}
    (hstep : s.swarm.step .proceed = some t) : Refuses start { s.carry .proceed with swarm := t } := by
  have hsound := h.sound.proceed hstep
  obtain ⟨u, hu, hproceed⟩ := Option.bind_eq_some_iff.1 hstep
  by_cases hr : u.stage.isRegistered = true
  · have hcarry : s.carry .proceed = s := by
      obtain ⟨peer, sid, attempt, stage⟩ := u
      cases stage <;> simp_all [Outbound.carry, Stage.isRegistered]
    obtain ⟨hun, hsetup⟩ := Swarm.proceed_registered hu hr hproceed
    refine ⟨hsound, fun u' firstEvents hu' _ hstage => ?_, fun sid hsid hs => ?_⟩
    · have := hsetup u' hu'
      rw [hstage] at this
      cases this
    · rw [hcarry]
      exact h.first sid hsid (mt (hun sid).2 hs)
  · obtain ⟨peer, sid, attempt, stage⟩ := u
    cases Swarm.proceeds_of_proceed hproceed with
    | prepare hstage hfirst =>
      cases hstage
      refine ⟨hsound, fun u' firstEvents hu' hsid hstage => ?_, fun sid' hsid hs => ?_⟩
      · cases hu'
        cases hstage
        exact CapabilityServerImpl.firstEvents_none hnone hfirst
      · have hne : sid' ≠ sid := fun he => hs (.inr ⟨_, rfl, he.symm, rfl⟩)
        have hold := h.first sid' hsid fun hun => hs ?_
        · simpa [Outbound.carry, hu, Outbound.set, hne] using hold
        · rcases hun with hlen | ⟨u', hu', hsid', -⟩
          · exact .inl hlen
          · rw [hu] at hu'
            cases hu'
            exact absurd hsid'.symm hne
    | register hstage =>
      cases hstage
      rename_i firstEvents server hserver
      refine ⟨hsound, fun u' firstEvents hu' hsid hstage => ?_, fun sid' hsid hs => ?_⟩
      · cases hu'
        cases hstage
      · by_cases hne : sid' = sid
        · subst hne
          have hfirst := h.prepared _ _ hu hsid rfl
          simpa [Outbound.carry, hu, Outbound.set, Line.new] using hfirst
        · have hold := h.first sid' hsid fun hun => hs ?_
          · simpa [Outbound.carry, hu, Outbound.set, hne] using hold
          · rcases hun with hlen | ⟨u', hu', hsid', -⟩
            · exact .inl hlen
            · rw [hu] at hu'
              cases hu'
              exact absurd hsid'.symm hne
    | fail => exact absurd (Swarm.step_routed _ _ _ h.sound.routed hstep).sound.2 (by simp)
    | spawnIngress hstage | spawnEgress hstage | spawnPinger hstage | install hstage =>
      cases hstage
      exact absurd rfl hr

/-- **A step without a status** keeps the sessions refused. -/
theorem Refuses.step {start : Nat} (h : Refuses start s) (hnone : s.swarm.server.statusMessage = none) {a : Action k}
    (hs : s.step a = some s') (ha : ∀ status, a ≠ .swarm (.setStatus (some status))) :
    Refuses start s' ∧ s.swarm.Closed s'.swarm := by
  have hsound := step_sound _ _ _ h.sound hs
  -- a step of the swarm that is no part of `setup_peer_state`
  have hswarm : ∀ {e : Event k} {t : Swarm k}, s.swarm.step e = some t → s'.swarm = t → a ≠ .swarm .proceed →
      e ≠ .proceed → (∀ status, e ≠ .setStatus (some status)) → Refuses start s' ∧ s.swarm.Closed s'.swarm := by
    intro e t hstep hs' hp he hset
    obtain ⟨hun, hsetup⟩ := Swarm.step_setup hstep he
    refine ⟨⟨hsound, fun u firstEvents hu hsid hstage => ?_, fun sid hsid hs'' => ?_⟩,
      hs' ▸ Swarm.step_closed hnone hstep hset⟩
    · exact h.prepared u firstEvents (hsetup u firstEvents (hs' ▸ hu) hstage) hsid hstage
    · rw [first_of_step h.sound hs hp]
      exact h.first sid hsid (mt (hun sid).2 (hs' ▸ hs''))
  have hkeep : s'.swarm = s.swarm → a ≠ .swarm .proceed → Refuses start s' ∧ s.swarm.Closed s'.swarm := by
    intro hs' hp
    refine ⟨⟨hsound, hs' ▸ h.prepared, fun sid hsid hs'' => ?_⟩, ⟨by rw [hs']; exact hnone, by rw [hs']⟩⟩
    rw [first_of_step h.sound hs hp]
    exact h.first sid hsid (hs' ▸ hs'')
  cases a with
  | swarm e =>
    have hs' := hs
    simp only [Outbound.step] at hs'
    split at hs'
    · cases hs'
    · obtain ⟨t, hstep, rfl⟩ := Option.map_eq_some_iff.1 hs'
      by_cases hp : e = .proceed
      · subst hp
        exact ⟨h.proceed hnone hstep, Swarm.step_closed hnone hstep (by simp)⟩
      · exact hswarm hstep rfl (by simpa using hp) hp fun status he => ha status (by rw [he])
  | send peer event =>
    refine hkeep ?_ (by simp)
    cases hs
    exact lookup_swarm ..
  | accept sid i =>
    refine hkeep ?_ (by simp)
    obtain ⟨event, -, hs⟩ := Option.bind_eq_some_iff.1 hs
    split at hs <;> cases hs
    rfl
  | cancel sid i =>
    refine hkeep ?_ (by simp)
    obtain ⟨event, -, rfl⟩ := Option.map_eq_some_iff.1 hs
    rfl
  | poll sid =>
    refine hkeep ?_ (by simp)
    obtain ⟨x, -, hs⟩ := Option.bind_eq_some_iff.1 hs
    split at hs
    · obtain ⟨_, -, rfl⟩ := Option.map_eq_some_iff.1 hs
      rfl
    · cases hs
  | next sid =>
    have hs' := hs
    simp only [Outbound.step] at hs'
    split at hs'
    · obtain ⟨⟨event, t⟩, -, hs'⟩ := Option.bind_eq_some_iff.1 hs'
      obtain ⟨u, hstep, rfl⟩ := Option.map_eq_some_iff.1 hs'
      exact hswarm hstep rfl (by simp) (by simp) (by simp)
    · cases hs'

/-- No session has begun since. -/
theorem Sound.refuses (h : s.Sound) : Refuses s.swarm.sessions.length s := by
  refine ⟨h, fun u firstEvents hu hsid => absurd (h.setup_lt hu) (by omega), fun sid hsid hs => absurd (.inl hsid) hs⟩

/-- Where a run without a status leads. -/
theorem Refuses.run {start : Nat} : ∀ {as : List (Action k)} {s s' : Outbound k}, Refuses start s →
    s.swarm.server.statusMessage = none → (∀ a ∈ as, ∀ status, a ≠ .swarm (.setStatus (some status))) →
    Runs.run Outbound.step s as = some s' → Refuses start s' ∧ s.swarm.Closed s'.swarm
  | [], _, _, h, hnone, _, hr => by
    cases hr
    exact ⟨h, hnone, subset_rfl⟩
  | a :: as, s, s', h, hnone, ha, hr => by
    obtain ⟨t, ht, hr⟩ := Option.bind_eq_some_iff.1 hr
    obtain ⟨hrefuses, hclosed⟩ := h.step hnone ht (ha a (List.mem_cons_self ..))
    obtain ⟨hrefuses', hclosed'⟩ := hrefuses.run hclosed.1 (fun b hb => ha b (List.mem_cons_of_mem _ hb)) hr
    exact ⟨hrefuses', hclosed'.1, hclosed'.2.trans hclosed.2⟩

/-- **Without a status there are no new peers.** In any run of a new swarm and of its senders, when a round of the
status updater has failed and until a later one succeeds: nobody becomes valid, and the sink of every session that has
begun since is handed at most one event, a disconnect. -/
theorem no_status_no_peers {maxPeers : Nat} (as : List (Action k)) {bs : List (Action k)} {t : Outbound k}
    (newFilter : UInt64 → H256 → Finset Nat → k.ForkFilter) (control : DynControl)
    (dataProvider : Except String FetchedStatus) (resolveBlockHeight : H256 → Except String (Option UInt64))
    {e : String} (hfail : fetchStatus newFilter control dataProvider resolveBlockHeight = .error e)
    (h : Runs.run step (new k maxPeers) as = some s)
    (hr : Runs.run step s (.swarm (writeStatus (fetchStatus newFilter control dataProvider resolveBlockHeight)) :: bs) =
      some t) (hbs : ∀ b ∈ bs, ∀ status, b ≠ .swarm (.setStatus (some status))) :
    t.swarm.server.validPeers ⊆ s.swarm.server.validPeers ∧
      ∀ sid, s.swarm.sessions.length ≤ sid → (t.outboxes sid).handed <+: refusal := by
  have hs : s.Sound := Runs.invariant step_sound as (new_sound k maxPeers) h
  rw [hfail] at hr
  have hwrite : step s (.swarm (writeStatus (.error e : Except String (StatusData × k.ForkFilter)))) =
      some { s with swarm := { s.swarm with server := { s.swarm.server with statusMessage := none } } } := rfl
  rw [Runs.run_cons, hwrite] at hr
  have hs' := step_sound _ _ _ hs hwrite
  obtain ⟨hrefuses, -, hvalid⟩ := hs'.refuses.run rfl hbs hr
  exact ⟨hvalid, fun sid hsid => hrefuses.handed hsid⟩

/-- A peer connects after a round of the status updater has failed (the control knows no forks), and its egress router
polls `next`. -/
def connectRefused : List (Action genesisForks) :=
  (Swarm.connectIncoming.drop 1).map .swarm ++ [.poll 0, .next 0]

/-- The peer is sent a disconnect. -/
theorem connectRefused_handed : ∃ t, Runs.run step (new genesisForks 10)
      (.swarm (writeStatus (fetchStatus (fun _ _ _ => (0, 0)) (.grpc (.ok ⟨1, [], [], none⟩)) (.error "")
        fun _ => .ok none)) :: connectRefused) =
        some t ∧ (t.outboxes 0).handed = refusal ∧ (t.outboxes 0).handed <+: refusal := by
  have hrun : (Runs.run step (new genesisForks 10)
      (.swarm (writeStatus (fetchStatus (fun _ _ _ => (0, 0)) (.grpc (.ok ⟨1, [], [], none⟩)) (.error "")
        fun _ => .ok none)) :: connectRefused)).map (fun t => (t.outboxes 0).handed) = some refusal := by decide +kernel
  obtain ⟨t, ht, hhanded⟩ := Option.map_eq_some_iff.1 hrun
  refine ⟨t, ht, hhanded, (no_status_no_peers [] _ _ _ _ rfl rfl ht ?_).2 0 le_rfl⟩
  simp [connectRefused, Swarm.connectIncoming]

end Outbound

end EthereumSentry
