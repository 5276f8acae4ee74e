import EthereumSentry.Swarm.Step

/-!
# Connects and disconnects alternate

The swarm refines sessions with exclusive slots (`slots`): every step of a task is one of their steps or changes nothing
that they see (`step_slots`). So the calls of `on_peer_connect` and of `on_peer_event` with a disconnect alternate for
every peer, and the assertion of `setup_peer` does not fail (`calls_alternate`).
-/

set_option autoImplicit false

namespace EthereumSentry

open Function (update)

variable {k : ForkCrates}

/-! ## What the slots see of the swarm -/

def Egress.life : Egress → Life
  | unspawned => .born
  | selecting => .live
  | flushing _ => .live
  | leaving _ => .live
  | disconnecting => .closing
  | tornDown => .torn
  | released => .gone

def Stage.isRegistered : Stage → Bool
  | called _ => false
  | prepared _ => false
  | _ => true

namespace Session

variable {x x' : Session k}

theorem afterHandling_ne_panicked (result : Except DisconnectReason (Option Message)) :
    (afterHandling result : Ingress k) ≠ .panicked := by
  unfold afterHandling
  split <;> simp

/-- What a task does to its session: the ingress router and the pinger leave the egress router as it is, which stays in
its loop or leaves it, and only a task of the ingress router touches that one. -/
inductive Steps (x : Session k) : Session k → Prop
  | ingress {ingress : Ingress k} {pinged : Bool} {signals : List DisconnectSignal} (hi : x.ingress ≠ .unspawned)
      (hi' : ingress ≠ .panicked) : Steps x { x with ingress := ingress, pinged := pinged, signals := signals }
  | pinger {pinger : Pinger} {pinged : Bool} {signals : List DisconnectSignal} :
      Steps x { x with pinger := pinger, pinged := pinged, signals := signals }
  | egress {egress : Egress} {signals : List DisconnectSignal} (he : x.egress = .selecting ∨ x.egress = .flushing none)
      (hlive : egress.life = .live) : Steps x { x with egress := egress, signals := signals }
  | leave {signal : DisconnectSignal} (he : x.egress = .flushing (some signal)) :
      Steps x { x with egress := .leaving signal }

theorem steps_of_receive (hi : x.ingress = .waiting) (received : Received) : Steps x (x.receive received) := by
  have hne : x.ingress ≠ .unspawned := by simp [hi]
  cases received with
  | pong => exact .ingress hne (by simp [hi])
  | message | ping | disconnect | closed => exact .ingress hne (by simp)

theorem steps_of_select (he : x.egress = .selecting) {selected : Selected} (h : x.select selected = some x') :
    Steps x x' := by
  unfold select at h
  split at h
  · cases h
    exact .egress (.inl he) rfl
  · cases h
    exact .egress (.inl he) rfl
  · cases h
    exact .egress (.inl he) rfl
  · cases h
    exact .egress (.inl he) rfl
  · split at h
    · cases h
    · split at h <;> cases h <;> exact .egress (.inl he) rfl

/-- **Every step of a task** is one of these. -/
theorem steps_of_step {e : TaskEvent} (h : x.step e = some x') : Steps x x' := by
  unfold step at h
  split at h
  · cases h
  · split at h
    · rename_i hi
      cases h
      exact steps_of_receive hi _
    · rename_i hi
      cases h
      exact .ingress (by simp [hi]) (afterHandling_ne_panicked _)
    · rename_i hi
      cases h
      exact .ingress (by simp [hi]) (by simp)
    · cases h
      exact .pinger
    · cases h
      exact .pinger
    · cases h
      exact .pinger
    · split at h <;> cases h <;> exact .pinger
    · rename_i he
      exact steps_of_select he h
    · rename_i he
      cases h
      exact .egress (.inr he) rfl
    · rename_i he
      cases h
      exact .egress (.inr he) rfl
    · rename_i he
      cases h
      exact .leave he
    · cases h

/-- A task keeps the peer, the life of the session, and whether it is accepted. -/
theorem step_keeps {e : TaskEvent} (h : x.step e = some x') :
    x'.peer = x.peer ∧ x'.egress.life = x.egress.life ∧ x'.accepted = x.accepted := by
  cases steps_of_step h with
  | ingress | pinger => exact ⟨rfl, rfl, rfl⟩
  | egress he hlive =>
    refine ⟨rfl, ?_, rfl⟩
    rcases he with he | he <;> rw [he] <;> exact hlive
  | leave he => exact ⟨rfl, by rw [he]; rfl, rfl⟩

end Session

namespace Swarm

/-- The session that an entry of the mapping is connected to. -/
def holderOf (mapping : AList fun _ : PeerId => PeerState) (p : PeerId) : Option Nat :=
  match mapping.lookup p with
  | some (.connected sid) => some sid
  | _ => none

def lifeOf (sessions : List (Session k)) (sid : Nat) : Option (PeerId × Life) :=
  sessions[sid]?.map fun x => (x.peer, x.egress.life)

/-- The calls for a peer. -/
def callsOf (calls : List (PeerId × Call)) (p : PeerId) : List Call := (calls.filter (·.1 = p)).map (·.2)

/-- The slots of the peers. -/
def slots (s : Swarm k) : Slots PeerId where
  holder := holderOf s.mapping
  life := lifeOf s.sessions
  setup := s.setup.map fun u => (u.peer, u.session, u.stage.isRegistered)
  pipes := s.server.current
  calls := callsOf s.calls

theorem holderOf_insert_connected (mapping : AList fun _ : PeerId => PeerState) (p : PeerId) (sid : Nat) :
    holderOf (mapping.insert p (.connected sid)) = update (holderOf mapping) p (some sid) := by
  funext q
  by_cases hq : q = p
  · subst hq
    simp [holderOf]
  · simp [holderOf, Function.update_of_ne hq, AList.lookup_insert_ne hq]

theorem holderOf_erase (mapping : AList fun _ : PeerId => PeerState) (p : PeerId) :
    holderOf (mapping.erase p) = update (holderOf mapping) p none := by
  funext q
  by_cases hq : q = p
  · subst hq
    simp [holderOf]
  · simp [holderOf, Function.update_of_ne hq, AList.lookup_erase_ne hq]

/-- Removing an entry that is not connected frees no slot. -/
theorem holderOf_erase_of_none {mapping : AList fun _ : PeerId => PeerState} {p : PeerId}
    (h : holderOf mapping p = none) : holderOf (mapping.erase p) = holderOf mapping := by
  rw [holderOf_erase, Function.update_eq_self_iff]
  exact h.symm

/-- A connecting entry takes no slot. -/
theorem holderOf_insert_connecting {mapping : AList fun _ : PeerId => PeerState} {p : PeerId}
    (h : mapping.lookup p = none) (cid : Nat) :
    holderOf (mapping.insert p (.connecting cid)) = holderOf mapping := by
  funext q
  by_cases hq : q = p
  · subst hq
    simp [holderOf, h]
  · simp [holderOf, AList.lookup_insert_ne hq]

theorem lifeOf_set {sessions : List (Session k)} {sid : Nat} {x : Session k} (h : sessions[sid]? = some x)
    (x' : Session k) :
    lifeOf (sessions.set sid x') = update (lifeOf sessions) sid (some (x'.peer, x'.egress.life)) := by
  have hlt : sid < sessions.length := (List.getElem?_eq_some_iff.1 h).1
  funext sid'
  by_cases he : sid' = sid
  · subst he
    simp [lifeOf, hlt]
  · rw [Function.update_of_ne he, lifeOf, lifeOf, List.getElem?_set_ne (Ne.symm he)]

/-- A session that keeps its peer and its life. -/
theorem lifeOf_set_of_eq {sessions : List (Session k)} {sid : Nat} {x : Session k} (h : sessions[sid]? = some x)
    (x' : Session k) (hp : x'.peer = x.peer) (hl : x'.egress.life = x.egress.life) :
    lifeOf (sessions.set sid x') = lifeOf sessions := by
  rw [lifeOf_set h x', Function.update_eq_self_iff, hp, hl, lifeOf, h]
  rfl

theorem lifeOf_append (sessions : List (Session k)) (x : Session k) :
    lifeOf (sessions ++ [x]) = update (lifeOf sessions) sessions.length (some (x.peer, x.egress.life)) := by
  funext sid
  rcases Nat.lt_trichotomy sid sessions.length with hi | hi | hi
  · rw [Function.update_of_ne hi.ne, lifeOf, lifeOf, List.getElem?_append_left hi]
  · subst hi
    simp [lifeOf]
  · rw [Function.update_of_ne hi.ne', lifeOf, lifeOf, List.getElem?_eq_none (by simp; omega),
      List.getElem?_eq_none hi.le]

theorem callsOf_append (calls : List (PeerId × Call)) (p : PeerId) (c : Call) :
    callsOf (calls ++ [(p, c)]) = update (callsOf calls) p (callsOf calls p ++ [c]) := by
  funext q
  by_cases hq : q = p
  · subst hq
    simp [callsOf]
  · simp [callsOf, Function.update_of_ne hq, Ne.symm hq]

/-! ## Steps -/

/-- A step that the slots see as one of theirs, or not at all. -/
def Refines (s s' : Swarm k) : Prop := s'.slots = s.slots ∨ Slots.Step s.slots s'.slots

variable {s s' : Swarm k}

/-- A change of a session that keeps its peer and its life is not seen. -/
theorem slots_setSession {sid : Nat} {x x' : Session k} (h : s.sessions[sid]? = some x) (hp : x'.peer = x.peer)
    (hl : x'.egress.life = x.egress.life) : (s.setSession sid x').slots = s.slots := by
  simp only [slots, setSession, lifeOf_set_of_eq h x' hp hl]

/-- The life of a session, as the slots see it. -/
theorem slots_life {sid : Nat} {x : Session k} (h : s.sessions[sid]? = some x) :
    s.slots.life sid = some (x.peer, x.egress.life) := by
  simp [slots, lifeOf, h]

/-- `setup_peer_state` claims the slot. -/
theorem beginSetup_claims {peer : PeerId} (hs : s.setup = none) (hh : holderOf s.mapping peer = none)
    (attempt : Option Nat) (caps : List (CapabilityName × Nat)) :
    Slots.Step s.slots (s.beginSetup peer attempt caps).slots := by
  have hslots : (s.beginSetup peer attempt caps).slots = { s.slots with
      setup := some (peer, s.sessions.length, false)
      life := update s.slots.life s.sessions.length (some (peer, .born))
      calls := update s.slots.calls peer (s.slots.calls peer ++ [.connect]) } := by
    simp only [slots, beginSetup, lifeOf_append, callsOf_append]
    rfl
  rw [hslots]
  exact .claim (by simp [slots, hs]) hh (by simp [slots, lifeOf])

theorem incoming_refines (hs : s.setup = none) (remoteId : PeerId) (caps : List (CapabilityName × Nat)) :
    Refines s (s.incoming remoteId caps) := by
  unfold incoming
  split
  · exact .inl rfl
  · rename_i hnone
    split
    · exact .inr (beginSetup_claims hs (by simp [holderOf, hnone]) none caps)
    · exact .inl rfl

theorem claim_slots (cid : Nat) (a : Attempt) : (s.claim cid a).slots = s.slots := by
  unfold claim
  split
  · rfl
  · rename_i hnone
    split
    · rfl
    · simp only [slots, setAttempt, holderOf_insert_connecting hnone]

theorem adopt_refines (hs : s.setup = none) (cid : Nat) (a : Attempt) (caps : List (CapabilityName × Nat)) :
    Refines s (s.adopt cid a caps) := by
  unfold adopt
  split
  · rename_i hentry
    -- the attempt is not seen
    exact .inr (beginSetup_claims (s := s.setAttempt cid { a with future := .settingUp }) hs
      (by simp [holderOf, setAttempt, hentry]) (some cid) caps)
  · exact .inl rfl

theorem giveUp_slots (cid : Nat) (a : Attempt) : (s.giveUp cid a).slots = s.slots := by
  unfold giveUp
  split
  · rename_i hentry
    have hh : holderOf s.mapping a.remoteId = none := by simp [holderOf, hentry]
    simp only [slots, finish, setAttempt, holderOf_erase_of_none hh]
  · rfl

theorem reap_slots (cid : Nat) (a : Attempt) : (s.reap cid a).slots = s.slots := by
  unfold reap
  dsimp only
  split
  · rename_i hentry
    have hh : holderOf s.mapping a.remoteId = none := by simp [holderOf, hentry]
    simp only [slots, setAttempt, holderOf_erase_of_none hh]
  · rfl

/-- A part of `setup_peer_state` is a step of the slots, and its assertion does not fail. -/
theorem proceed_refines (hw : s.slots.WellFormed) (hf : s.failed = false) {u : Setup} (hs : s.setup = some u)
    (h : s.proceed u = some s') : s'.failed = false ∧ Refines s s' := by
  obtain ⟨peer, sid, attempt, stage⟩ := u
  have hsetup : s.slots.setup = some (peer, sid, stage.isRegistered) := by simp [slots, hs]
  cases proceeds_of_proceed h with
  | prepare hu =>
    cases hu
    exact ⟨hf, .inl (by simp only [slots, hs]; rfl)⟩
  | @register firstEvents server hu hserver =>
    cases hu
    have hpipes : server.current = update s.server.current peer (some sid) := by
      funext q
      rw [(CapabilityServerImpl.setupPeer_eq_some hserver).2.2 q, Function.update_apply]
    have hslots := Slots.Step.register hsetup
    refine ⟨hf, .inr ?_⟩
    simp only [slots, hpipes] at hslots ⊢
    exact hslots
  | fail hu hserver =>
    cases hu
    exact absurd (hw.fresh peer sid hsetup).1 (CapabilityServerImpl.setupPeer_eq_none.1 hserver)
  | @spawnIngress x hu hx =>
    cases hu
    have hlife := lifeOf_set_of_eq hx { x with ingress := .waiting } rfl rfl
    exact ⟨hf, .inl (by simp only [slots, setSession, hlife, hs]; rfl)⟩
  | @spawnEgress x hu hx hegress =>
    cases hu
    have hl : s.slots.life sid = some (x.peer, x.egress.life) := slots_life hx
    obtain ⟨-, l, hpeer, -⟩ := hw.setup _ _ _ hsetup
    obtain rfl : x.peer = peer := by
      rw [hl] at hpeer
      cases hpeer
      rfl
    rw [hegress] at hl
    have hlife := lifeOf_set hx { x with egress := .selecting }
    have hslots := Slots.Step.spawn hsetup hl
    refine ⟨hf, .inr ?_⟩
    simp only [slots, setSession, hlife, hs] at hslots ⊢
    exact hslots
  | @spawnPinger x hu hx =>
    cases hu
    have hlife := lifeOf_set_of_eq hx { x with pinger := .looping } rfl rfl
    exact ⟨hf, .inl (by simp only [slots, setSession, hlife, hs]; rfl)⟩
  | install hu =>
    cases hu
    have hslots := Slots.Step.install hsetup
    refine ⟨hf, .inr ?_⟩
    simp only [slots, install, holderOf_insert_connected] at hslots ⊢
    exact hslots

/-- The ingress router accepts a `Status`. -/
theorem accept_slots {sid : Nat} {x : Session k} (hx : s.sessions[sid]? = some x) (v : StatusMessage k.ForkId) :
    (s.accept sid x v).slots = s.slots := by
  unfold accept
  split
  · rename_i server hserver
    have hlife := lifeOf_set_of_eq hx
      { x with ingress := .waiting, accepted := x.accepted || s.server.statusMessage.isSome } rfl rfl
    simp only [slots, setSession, hlife, CapabilityServerImpl.current_acceptStatus hserver]
  · exact slots_setSession hx rfl rfl

/-- **Every step of the swarm is a step of its slots**, or is not seen by them; and no assertion fails. -/
theorem step_slots (hw : s.slots.WellFormed) (hf : s.failed = false) {e : Event k} (h : s.step e = some s') :
    s'.failed = false ∧ Refines s s' := by
  cases steps_of_step h with
  | ban | setStatus | addPeer | poll | drop | told => exact ⟨hf, .inl rfl⟩
  | uncount => exact ⟨hf, .inl (by simp only [slots, setAttempt])⟩
  | incoming remoteId caps hs =>
    refine ⟨?_, incoming_refines hs remoteId caps⟩
    unfold incoming
    split
    · exact hf
    · split <;> exact hf
  | @claim cid a =>
    refine ⟨?_, .inl (claim_slots cid a)⟩
    unfold claim
    split
    · exact hf
    · split <;> exact hf
  | @adopt cid a caps ha hdialing hs =>
    refine ⟨?_, adopt_refines hs cid a caps⟩
    unfold adopt
    split <;> exact hf
  | @giveUp cid a =>
    refine ⟨?_, .inl (giveUp_slots cid a)⟩
    unfold giveUp
    split <;> exact hf
  | @reap cid a =>
    refine ⟨?_, .inl (reap_slots cid a)⟩
    unfold reap
    dsimp only
    split <;> exact hf
  | proceed hs hproceed => exact proceed_refines hw hf hs hproceed
  | task hx htask =>
    obtain ⟨hp, hl, -⟩ := Session.step_keeps htask
    exact ⟨hf, .inl (slots_setSession hx hp hl)⟩
  | handle hx => exact ⟨hf, .inl (slots_setSession hx rfl rfl)⟩
  | accept hx =>
    refine ⟨?_, .inl (accept_slots hx _)⟩
    unfold accept
    split <;> exact hf
  | reply hx =>
    unfold lookupSender
    split <;> exact ⟨hf, .inl (slots_setSession hx rfl rfl)⟩
  | @disconnect sid x signal hx hegress =>
    have hl : s.slots.life sid = some (x.peer, .live) := by rw [slots_life hx, hegress]; rfl
    have hlife := lifeOf_set hx { x with egress := .disconnecting }
    have hslots := Slots.Step.close hl
    refine ⟨hf, .inr ?_⟩
    simp only [slots, setSession, hlife, callsOf_append] at hslots ⊢
    exact hslots
  | @teardown sid x hx hegress =>
    have hl : s.slots.life sid = some (x.peer, .closing) := by rw [slots_life hx, hegress]; rfl
    have hlife := lifeOf_set hx { x with egress := .tornDown }
    have hpipes : (s.server.teardownPeer x.peer).current = update s.server.current x.peer none := by
      funext q
      rw [CapabilityServerImpl.current_teardownPeer, Function.update_apply]
    have hslots := Slots.Step.teardown hl
    refine ⟨hf, .inr ?_⟩
    simp only [slots, setSession, hlife, hpipes] at hslots ⊢
    exact hslots
  | @release sid x hx hegress hs =>
    have hl : s.slots.life sid = some (x.peer, .torn) := by rw [slots_life hx, hegress]; rfl
    have hlife := lifeOf_set hx { x with egress := .released }
    have hslots := Slots.Step.release (by simp [slots, hs]) hl
    refine ⟨hf, .inr ?_⟩
    simp only [slots, setSession, hlife, holderOf_erase] at hslots ⊢
    exact hslots

/-! ## Runs -/

/-- The slots are well formed, and no assertion has failed. -/
def Sound (s : Swarm k) : Prop := s.slots.WellFormed ∧ s.failed = false

theorem new_sound (k : ForkCrates) (maxPeers : Nat) : (new k maxPeers).Sound := ⟨Slots.empty_wellFormed, rfl⟩

theorem step_sound (s : Swarm k) (e : Event k) (s' : Swarm k) (h : s.Sound) (hs : s.step e = some s') : s'.Sound := by
  obtain ⟨hf, hslots⟩ := step_slots h.1 h.2 hs
  rcases hslots with heq | hstep
  · exact ⟨heq ▸ h.1, hf⟩
  · exact ⟨hstep.wellFormed h.1, hf⟩

/-- **Connects and disconnects alternate**: in every run of the tasks of a swarm, the calls of `on_peer_connect` and of
`on_peer_event` with a disconnect alternate for every peer, beginning with `on_peer_connect`, and the assertion of
`setup_peer` never fails. -/
theorem calls_alternate {maxPeers : Nat} {es : List (Event k)} {s : Swarm k}
    (h : Runs.run step (new k maxPeers) es = some s) :
    (∀ p, Alternates (callsOf s.calls p)) ∧ s.failed = false := by
  obtain ⟨hw, hf⟩ := Runs.invariant step_sound es (new_sound k maxPeers) h
  exact ⟨hw.alternates, hf⟩

/-- A peer connects, its session ends, and it is connected to again. -/
theorem reconnect_alternates : ∃ s, Runs.run step (new genesisForks 10)
    (connectIncoming ++ closeSession ++ connectOutgoing) = some s ∧
      callsOf s.calls samplePeer = [.connect, .disconnect, .connect] ∧ Alternates (callsOf s.calls samplePeer) := by
  have hrun : ∃ s, Runs.run step (new genesisForks 10) (connectIncoming ++ closeSession ++ connectOutgoing) = some s ∧
      callsOf s.calls samplePeer = [.connect, .disconnect, .connect] := ⟨_, rfl, by decide⟩
  obtain ⟨s, hs, hcalls⟩ := hrun
  exact ⟨s, hs, hcalls, (calls_alternate hs).1 samplePeer⟩

end Swarm

end EthereumSentry
