import EthereumSentry.Swarm.Alternation

/-!
# Lookups after a teardown

`on_peer_event` and `next` look up the pipes of their peer and unwrap what they find. `peer_pipes` has exactly the peers
with a session that is registered and not torn down (`mem_peerPipes_iff`), so `next`, which is polled in `select!` only,
finds them. A handler of the ingress router can outlast the teardown of its session (`Late`): `found_iff` says that in a
run every lookup succeeds exactly when no step of the run is the lookup of such a handler.
-/

set_option autoImplicit false

namespace EthereumSentry

variable {k : ForkCrates}

/-- The egress router has not left its loop, and will not leave it next. -/
def Egress.Looping (e : Egress) : Prop := e = .unspawned ∨ e = .selecting ∨ e = .flushing none

def Ingress.isPanicked : Ingress k → Bool
  | .panicked => true
  | _ => false

namespace Session

variable {x x' : Session k}

/-- The session was torn down. -/
def TornDown (x : Session k) : Prop := x.egress = .tornDown ∨ x.egress = .released

theorem tornDown_iff : x.TornDown ↔ x.egress.life = .torn ∨ x.egress.life = .gone := by
  cases h : x.egress <;> simp [TornDown, h, Egress.life]

/-- A task leaves the ingress router as it is, or takes it from one await to another state. -/
theorem step_ingress {e : TaskEvent} (h : x.step e = some x') :
    x'.ingress = x.ingress ∨ x.ingress ≠ .unspawned ∧ x'.ingress ≠ .panicked := by
  cases steps_of_step h with
  | ingress hi hi' => exact .inr ⟨hi, hi'⟩
  | pinger | egress | leave => exact .inl rfl

/-- No task takes the egress router back to its loop. -/
theorem step_looping {e : TaskEvent} (h : x.step e = some x') : x'.egress.Looping → x.egress.Looping := by
  cases steps_of_step h with
  | ingress | pinger => exact id
  | egress he => exact fun _ => .inr he
  | leave he =>
    intro hl
    rcases hl with hl | hl | hl <;> cases hl

end Session

namespace Swarm

/-- The peer has a session that `setup_peer` has registered, and that was not torn down. -/
def Registered (s : Swarm k) (p : PeerId) : Prop :=
  ∃ sid x, s.sessions[sid]? = some x ∧ x.peer = p ∧ ¬x.TornDown ∧
    ∀ u, s.setup = some u → u.session = sid → u.stage.isRegistered = true

/-- No lookup of `on_peer_event` has failed, and a lookup of `next` finds the pipes of its own session. -/
structure Found (s : Swarm k) : Prop where
  sender : ∀ (sid : Nat) x, s.sessions[sid]? = some x → x.ingress ≠ .panicked
  receiver : ∀ (sid : Nat) x, s.sessions[sid]? = some x → x.egress = .selecting → s.server.current x.peer = some sid

/-- The handler of a session that was torn down has something to send, and no session of its peer is registered. -/
def Late (s : Swarm k) (e : Event k) : Prop :=
  ∃ sid x event, e = .reply sid ∧ s.sessions[sid]? = some x ∧ x.ingress = .replying event ∧ x.TornDown ∧
    ¬s.Registered x.peer

/-- The tasks of a session that is not registered yet have not been spawned. -/
def Unspawned (s : Swarm k) : Prop :=
  ∀ u, s.setup = some u → u.stage.isRegistered = false → ∀ x, s.sessions[u.session]? = some x → x.ingress = .unspawned

variable {s s' : Swarm k}

/-! ## What is registered -/

theorem slots_setup {p : PeerId} {sid : Nat} {r : Bool} : s.slots.setup = some (p, sid, r) ↔
    ∃ u, s.setup = some u ∧ u.peer = p ∧ u.session = sid ∧ u.stage.isRegistered = r := by
  simp [slots, Option.map_eq_some_iff]

/-- A session has pipes exactly when it is registered and not torn down. -/
theorem current_eq_some_iff (hw : s.slots.WellFormed) (hp : s.slots.Piped) {p : PeerId} {sid : Nat} :
    s.server.current p = some sid ↔ ∃ x, s.sessions[sid]? = some x ∧ x.peer = p ∧ ¬x.TornDown ∧
      ∀ u, s.setup = some u → u.session = sid → u.stage.isRegistered = true := by
  have hslots : s.slots.pipes p = some sid ↔ _ := hp.pipes_eq_some hw
  change s.slots.pipes p = some sid ↔ _
  rw [hslots]
  constructor
  · rintro ⟨l, hl, ht, hg, hs⟩
    obtain ⟨x, hx, he⟩ := Option.map_eq_some_iff.1 hl
    cases he
    refine ⟨x, hx, rfl, fun h => (Session.tornDown_iff.1 h).elim ht hg, fun u hu hsid => ?_⟩
    -- what is set up is of the same peer
    obtain ⟨-, l, hpeer, -⟩ := hw.setup _ _ _ (slots_setup.2 ⟨u, hu, rfl, hsid, rfl⟩)
    rw [hl, Option.some.injEq, Prod.mk.injEq] at hpeer
    by_contra hr
    exact hs (slots_setup.2 ⟨u, hu, hpeer.1.symm, hsid, by simpa using hr⟩)
  · rintro ⟨x, hx, rfl, ht, hs⟩
    have ht := not_or.1 (mt Session.tornDown_iff.2 ht)
    refine ⟨x.egress.life, slots_life hx, ht.1, ht.2, fun h => ?_⟩
    obtain ⟨u, hu, -, hsid, hr⟩ := slots_setup.1 h
    rw [hs u hu hsid] at hr
    cases hr

/-- **`peer_pipes` has the registered peers.** -/
theorem mem_peerPipes_iff (hw : s.slots.WellFormed) (hp : s.slots.Piped) (p : PeerId) :
    p ∈ s.server.peerPipes ↔ s.Registered p := by
  have hmem : p ∈ s.server.peerPipes ↔ ∃ sid, s.server.current p = some sid := by
    rw [← AList.lookup_isSome, Option.isSome_iff_exists]
    simp [CapabilityServerImpl.current]
  rw [hmem, Registered]
  exact exists_congr fun sid => current_eq_some_iff hw hp

/-! ## Steps -/

/-- What a step does to the sessions. -/
inductive Moves (s s' : Swarm k) (e : Event k) : Prop
  | same (hsessions : s'.sessions = s.sessions) (hsetup : s'.setup = s.setup)
  | began {p : PeerId} {attempt : Option Nat} {caps : List (CapabilityName × Nat)} (hs : s.setup = none)
    (hsessions : s'.sessions = s.sessions ++ [.new k p])
    (hsetup : s'.setup = some ⟨p, s.sessions.length, attempt, .called caps⟩)
  | proceeded {u : Setup} (he : e = .proceed) (hu : s.setup = some u) (h : s.proceed u = some s')
  | set {sid : Nat} {x x' : Session k} (hx : s.sessions[sid]? = some x) (hsessions : s'.sessions = s.sessions.set sid x')
    (hsetup : s'.setup = s.setup) (hu : x.ingress = .unspawned → x'.ingress = .unspawned)
    (hp : x'.ingress = .panicked → x.ingress = .panicked ∨
      e = .reply sid ∧ (∃ event, x.ingress = .replying event) ∧ s.server.peerPipes.lookup x.peer = none)
    (hl : x'.egress.Looping → x.egress.Looping)

/-- What is found where one session was replaced was there before, or is the new one. -/
theorem mem_set_cases {l : List (Session k)} {i sid : Nat} {y z : Session k} (h : (l.set i y)[sid]? = some z) :
    i = sid ∧ z = y ∨ l[sid]? = some z := by
  rw [List.getElem?_set] at h
  split at h
  · split at h <;> cases h
    exact .inl ⟨‹_›, rfl⟩
  · exact .inr h

/-- **A step moves one session at most.** -/
theorem step_moves {e : Event k} (h : s.step e = some s') : Moves s s' e := by
  cases steps_of_step h with
  | ban | setStatus | addPeer | poll | drop | told | uncount => exact .same rfl rfl
  | incoming remoteId caps hs =>
    unfold incoming
    split
    · exact .same rfl rfl
    · split
      · exact .began hs rfl rfl
      · exact .same rfl rfl
  | claim =>
    unfold claim
    split
    · exact .same rfl rfl
    · split <;> exact .same rfl rfl
  | adopt caps ha hf hs =>
    unfold adopt
    split
    · exact .began hs rfl rfl
    · exact .same rfl rfl
  | giveUp =>
    unfold giveUp
    split <;> exact .same rfl rfl
  | reap =>
    unfold reap
    dsimp only
    split <;> exact .same rfl rfl
  | proceed hu hproceed => exact .proceeded rfl hu hproceed
  | task hx hx' =>
    refine .set hx rfl rfl (fun hu => ?_) (fun hp => ?_) (Session.step_looping hx')
    · rcases Session.step_ingress hx' with he | ⟨hne, -⟩
      · rw [he, hu]
      · exact absurd hu hne
    · rcases Session.step_ingress hx' with he | ⟨-, hne⟩
      · exact .inl (he ▸ hp)
      · exact absurd hp hne
  | handle hx hi =>
    refine .set hx rfl rfl (by simp [hi]) (fun hp => absurd hp ?_) id
    dsimp only
    split <;> simp [Session.afterHandling_ne_panicked]
  | accept hx hi =>
    unfold accept
    split
    · exact .set hx rfl rfl (by simp [hi]) (fun hp => by cases hp) id
    · refine .set hx rfl rfl (by simp [hi]) (fun hp => absurd hp ?_) id
      dsimp only
      exact Session.afterHandling_ne_panicked _
  | @reply sid x event hx hi =>
    unfold lookupSender
    split
    · exact .set hx rfl rfl (by simp [hi]) (fun hp => by cases hp) id
    · rename_i hnone
      exact .set hx rfl rfl (by simp [hi]) (fun _ => .inr ⟨rfl, ⟨event, hi⟩, hnone⟩) id
  | disconnect hx | teardown hx | release hx =>
    exact .set hx rfl rfl id .inl fun hl => by rcases hl with hl | hl | hl <;> cases hl

/-- The tasks of a session that is not registered yet stay unspawned. -/
theorem step_unspawned (hun : s.Unspawned) {e : Event k} (h : s.step e = some s') : s'.Unspawned := by
  intro u' hu' hr x' hx'
  cases step_moves h with
  | same hsessions hsetup => exact hun u' (hsetup ▸ hu') hr x' (hsessions ▸ hx')
  | began hs hsessions hsetup =>
    rw [hsetup] at hu'
    cases hu'
    rw [hsessions, List.getElem?_concat_length] at hx'
    cases hx'
    rfl
  | @set sid x y hx hsessions hsetup hu =>
    rw [hsetup] at hu'
    rw [hsessions] at hx'
    rcases mem_set_cases hx' with ⟨hsid, rfl⟩ | hx'
    · exact hu (hun u' hu' hr x (hsid ▸ hx))
    · exact hun u' hu' hr x' hx'
  | @proceeded u he hu h =>
    cases proceeds_of_proceed h with
    | prepare hstage =>
      cases hu'
      exact hun u hu (by rw [hstage]; rfl) x' hx'
    | fail => exact hun u' hu' hr x' hx'
    | register | spawnIngress | spawnEgress | spawnPinger =>
      cases hu'
      cases hr
    | install => cases hu'

/-- The parts of `setup_peer_state` panic in no ingress router. -/
theorem proceed_not_panicked {u : Setup} (h : s.proceed u = some s')
    (hs : ∀ (sid : Nat) x, s.sessions[sid]? = some x → x.ingress ≠ .panicked) (sid : Nat) (x' : Session k)
    (hx' : s'.sessions[sid]? = some x') : x'.ingress ≠ .panicked := by
  have hset : ∀ (sid' : Nat) (y : Session k), y.ingress ≠ .panicked → (s.sessions.set sid' y)[sid]? = some x' →
      x'.ingress ≠ .panicked := by
    intro sid' y hy hx'
    rcases mem_set_cases hx' with ⟨-, rfl⟩ | hx'
    · exact hy
    · exact hs sid x' hx'
  cases proceeds_of_proceed h with
  | prepare | register | fail | install => exact hs sid x' hx'
  | spawnIngress => exact hset _ _ (by simp) hx'
  | @spawnEgress x hu hx => exact hset _ { x with egress := .selecting } (hs _ x hx) hx'
  | @spawnPinger x hu hx => exact hset _ { x with pinger := .looping } (hs _ x hx) hx'

/-! ## Lookups -/

/-- The slots are well formed, the pipes are with their sessions, and what is not registered is not spawned. -/
structure Routed (s : Swarm k) : Prop where
  sound : s.Sound
  piped : s.slots.Piped
  unspawned : s.Unspawned

theorem new_routed (k : ForkCrates) (maxPeers : Nat) : (new k maxPeers).Routed where
  sound := new_sound k maxPeers
  piped p sid l h := by simp [new, slots, lifeOf] at h
  unspawned u h := by simp [new] at h

theorem step_routed (s : Swarm k) (e : Event k) (s' : Swarm k) (h : s.Routed) (hs : s.step e = some s') :
    s'.Routed := by
  refine ⟨step_sound s e s' h.sound hs, ?_, step_unspawned h.unspawned hs⟩
  rcases (step_slots h.sound.1 h.sound.2 hs).2 with heq | hstep
  · exact heq ▸ h.piped
  · exact hstep.piped h.sound.1 h.piped

/-- A session in `select!` has its pipes. -/
theorem Routed.receiver (h : s.Routed) {sid : Nat} {x : Session k} (hx : s.sessions[sid]? = some x)
    (he : x.egress = .selecting) : s.server.current x.peer = some sid := by
  have hl : s.slots.life sid = some (x.peer, .live) := by rw [slots_life hx, he]; rfl
  refine h.piped x.peer sid .live hl (by decide) (by decide) fun hs => ?_
  rw [(h.sound.1.fresh x.peer sid hs).2] at hl
  cases hl

/-- A session with a reply has pipes until it is torn down. -/
theorem Routed.registered (h : s.Routed) {sid : Nat} {x : Session k} (hx : s.sessions[sid]? = some x)
    {event : OutboundEvent} (hi : x.ingress = .replying event) (ht : ¬x.TornDown) : s.Registered x.peer := by
  refine ⟨sid, x, hx, rfl, ht, fun u hu hsid => ?_⟩
  by_contra hr
  have := h.unspawned u hu (by simpa using hr) x (hsid ▸ hx)
  rw [hi] at this
  cases this

/-- **A step keeps all lookups successful** exactly when it is not the lookup of a handler that is late. -/
theorem step_found (h : s.Routed) (hf : s.Found) (e : Event k) :
    (∀ s', s.step e = some s' → s'.Found) ↔ ¬s.Late e := by
  have hpipes := mem_peerPipes_iff h.sound.1 h.piped
  constructor
  · rintro hfound ⟨sid, x, event, rfl, hx, hi, -, hr⟩
    have hnone : s.server.peerPipes.lookup x.peer = none := AList.lookup_eq_none.2 (mt (hpipes x.peer).1 hr)
    have hstep : s.step (.reply sid) = some (s.setSession sid { x with ingress := .panicked }) := by
      simp only [step, hx, Option.bind_some, hi, lookupSender, hnone]
    exact (hfound _ hstep).sender sid _ (List.getElem?_set_self (List.getElem?_eq_some_iff.1 hx).1) rfl
  · intro hlate s' hstep
    refine ⟨fun sid x' hx' hpan => ?_, fun sid x' hx' he => (step_routed s e s' h hstep).receiver hx' he⟩
    cases step_moves hstep with
    | same hsessions => exact hf.sender sid x' (hsessions ▸ hx') hpan
    | began hs hsessions =>
      rw [hsessions, List.getElem?_append] at hx'
      split at hx'
      · exact hf.sender sid x' hx' hpan
      · have hmem := List.mem_of_getElem? hx'
        rw [List.mem_singleton.1 hmem] at hpan
        cases hpan
    | proceeded he hu hproceed => exact proceed_not_panicked hproceed hf.sender sid x' hx' hpan
    | @set sid' x y hx hsessions hsetup hu hp =>
      rw [hsessions] at hx'
      rcases mem_set_cases hx' with ⟨-, rfl⟩ | hx'
      · rcases hp hpan with hpan | ⟨rfl, ⟨event, hi⟩, hnone⟩
        · exact hf.sender sid' x hx hpan
        · have hr : ¬s.Registered x.peer := fun hr => AList.lookup_eq_none.1 hnone ((hpipes x.peer).2 hr)
          exact hlate ⟨sid', x, event, rfl, hx, hi, by_contra fun ht => hr (h.registered hx hi ht), hr⟩
      · exact hf.sender sid x' hx' hpan

/-- **Lookups in runs**: in a run of a new swarm, the lookups of `on_peer_event` and of `next` find the pipes of their
peer throughout exactly when no handler gets to its lookup after the teardown of its session, at a moment when its peer
has no other session that is registered. -/
theorem found_iff (maxPeers : Nat) (es : List (Event k)) :
    Runs.Always step Found (new k maxPeers) es ↔ Runs.Along step (fun s e => ¬s.Late e) (new k maxPeers) es :=
  Runs.always_iff_along step_routed (fun _ e h hf => step_found h hf e) es (new_routed k maxPeers)
    ⟨fun sid x h => by simp [new] at h, fun sid x h => by simp [new] at h⟩

instance (i : Ingress k) : Decidable (i = .panicked) :=
  decidable_of_iff (i.isPanicked = true) (by cases i <;> simp [Ingress.isPanicked])

/-- A handler whose `Status` does not decode has the peer kicked after the teardown of its session. -/
def lateKick : List (Event genesisForks) :=
  connectIncoming ++ [.task 0 (.receive (.message ⟨0, [0xc0]⟩)), .handle 0,
    .task 0 (.select (.event (.disconnect .disconnectRequested))), .task 0 (.flush true), .disconnect 0, .teardown 0,
    .reply 0]

/-- Its lookup fails. -/
theorem lateKick_panics : ¬∀ (maxPeers : Nat) (es : List (Event genesisForks)),
    Runs.Always step Found (new genesisForks maxPeers) es := by
  intro h
  have hrun : (Runs.run step (new genesisForks 10) lateKick).map (fun s =>
      decide (∃ x ∈ s.sessions, x.ingress = .panicked)) = some true := by decide +kernel
  obtain ⟨s, hs, hp⟩ := Option.map_eq_some_iff.1 hrun
  obtain ⟨x, hx, hp⟩ := of_decide_eq_true hp
  obtain ⟨sid, hx⟩ := List.mem_iff_getElem?.1 hx
  exact ((h 10 lateKick).run hs).sender sid x hx hp

end Swarm

end EthereumSentry
