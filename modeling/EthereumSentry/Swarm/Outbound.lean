import EthereumSentry.Lib.Line
import EthereumSentry.Swarm.Teardown

/-!
# The way out of a session

The swarm with what is sent to its peers (`Outbound`): the channels that `on_peer_connect` opens, the streams over them
that begin with the first events, the sends to them that are under way, and the futures of `next` that the egress
routers hold. The future is looked at in `select!`, and is kept when another branch is taken.

`outbound_in_order` says what the sink of a session is handed in any run: the first events and then what the channel has
accepted, in this order, up to the first disconnect.
-/

set_option autoImplicit false

namespace EthereumSentry

open Function (update)

variable {k : ForkCrates}

def OutboundEvent.isDisconnect : OutboundEvent → Bool
  | .message _ _ => false
  | .disconnect _ => true

/-- The future of `next` that an egress router holds. -/
inductive NextFuture where
  /-- It has not been polled. -/
  | created
  /-- It has looked up the receiver of a session, and awaits the stream. -/
  | awaiting (session : Nat)
  /-- It has returned a disconnect. -/
  | completed
  deriving DecidableEq, Repr

/-- What leads out of a session. -/
structure Outbox where
  /-- The channel of the session, with the stream over it. -/
  line : Line OutboundEvent
  /-- The sends that hold a sender of the channel, and await room. -/
  sends : List OutboundEvent
  next : NextFuture
  /-- What the egress router has got from `next` and has handed to the sink. -/
  handed : List OutboundEvent
  /-- A status was available to `on_peer_connect`. -/
  hadStatus : Bool

def Outbox.new : Outbox := ⟨.new [], [], .created, [], false⟩

/-- A swarm with the outboxes of its sessions. -/
structure Outbound (k : ForkCrates) where
  swarm : Swarm k
  outboxes : Nat → Outbox

namespace Outbound

inductive Action (k : ForkCrates) where
  /-- A step of the swarm, other than with an event of `next`. -/
  | swarm (e : Event k)
  /-- `send_by_predicate` or `penalize_peer` looks up the sender of a peer. -/
  | send (peer : PeerId) (event : OutboundEvent)
  /-- A send gets a place in the channel. -/
  | accept (session i : Nat)
  /-- A send fails, or is dropped. -/
  | cancel (session i : Nat)
  /-- The egress router polls a future of `next` for the first time. -/
  | poll (session : Nat)
  /-- The future of `next` returns an event, which the egress router hands to the sink. -/
  | next (session : Nat)

/-- A step of the swarm in which an egress router gets an event of `next`. -/
def isNext : Event k → Bool
  | .task _ (.select (.event _)) => true
  | _ => false

def new (k : ForkCrates) (maxPeers : Nat) : Outbound k := ⟨.new k maxPeers, fun _ => .new⟩

/-- An outbox changes. -/
def set (s : Outbound k) (sid : Nat) (o : Outbox) : Outbound k := { s with outboxes := update s.outboxes sid o }

/-- A sender of the peer is looked up, to send an event. -/
def lookup (s : Outbound k) (peer : PeerId) (event : OutboundEvent) : Outbound k :=
  match s.swarm.server.current peer with
  | some sid => s.set sid { s.outboxes sid with sends := (s.outboxes sid).sends ++ [event] }
  | none => s

/-- What a step of the swarm does to the outboxes: `on_peer_connect` prepares the first events and opens the channel,
and `on_peer_event` looks up the sender for a reply. -/
def carry (s : Outbound k) : Event k → Outbound k
  | .proceed => match s.swarm.setup with
    | some ⟨_, sid, _, .called _⟩ =>
      s.set sid { s.outboxes sid with hadStatus := s.swarm.server.statusMessage.isSome }
    | some ⟨_, sid, _, .prepared firstEvents⟩ => s.set sid { s.outboxes sid with line := .new firstEvents }
    | _ => s
  | .reply sid => match s.swarm.sessions[sid]? with
    | some x => match x.ingress with
      | .replying event => s.lookup x.peer event
      | _ => s
    | none => s
  | _ => s

/-- The pipes of the session are in `peer_pipes`. -/
def hasPipes (s : Outbound k) (sid : Nat) : Bool := match s.swarm.sessions[sid]? with
  | some x => s.swarm.server.current x.peer = some sid
  | none => false

/-- The stream over the channel of a session is polled. It ends when there is no sender. -/
def pollStream (s : Outbound k) (sid : Nat) : Option (OutboundEvent × Outbound k) :=
  match (s.outboxes sid).line.take with
  | some (event, line) => some (event, s.set sid { s.outboxes sid with line := line })
  | none =>
    if s.hasPipes sid || !(s.outboxes sid).sends.isEmpty then none else some (.disconnect .disconnectRequested, s)

/-- The egress router hands an event of `next` to the sink, and calls `next` again unless it is a disconnect. -/
def hand (s : Outbound k) (sid : Nat) (event : OutboundEvent) : Outbound k := s.set sid { s.outboxes sid with
  handed := (s.outboxes sid).handed ++ [event]
  next := if event.isDisconnect then .completed else .created }

/-- **A step** of the swarm or of its senders. -/
def step (s : Outbound k) : Action k → Option (Outbound k)
  | .swarm e => if isNext e then none else (s.swarm.step e).map fun swarm => { s.carry e with swarm := swarm }
  | .send peer event => some (s.lookup peer event)
  | .accept sid i => (s.outboxes sid).sends[i]?.bind fun event =>
    -- the channel has one place, and a receiver while the pipes are there or the future holds it
    if (s.outboxes sid).line.queue.length < 1 ∧ (s.hasPipes sid ∨ (s.outboxes sid).next = .awaiting sid) then
      some (s.set sid { s.outboxes sid with
        line := (s.outboxes sid).line.accept event
        sends := (s.outboxes sid).sends.eraseIdx i })
    else none
  | .cancel sid i => (s.outboxes sid).sends[i]?.map fun _ =>
    s.set sid { s.outboxes sid with sends := (s.outboxes sid).sends.eraseIdx i }
  | .poll sid => s.swarm.sessions[sid]?.bind fun x =>
    if x.egress = .selecting ∧ (s.outboxes sid).next = .created then
      (s.swarm.server.current x.peer).map fun sid' => s.set sid { s.outboxes sid with next := .awaiting sid' }
    else none
  | .next sid => match (s.outboxes sid).next with
    | .awaiting sid' => (s.pollStream sid').bind fun (event, t) =>
      (s.swarm.step (.task sid (.select (.event event)))).map fun swarm => { t.hand sid event with swarm := swarm }
    | _ => none

end Outbound

/-! ## Sessions that have no pipes yet -/

namespace Swarm

/-- The session does not exist, or it is not registered yet. -/
def Unregistered (s : Swarm k) (sid : Nat) : Prop :=
  s.sessions.length ≤ sid ∨ ∃ u, s.setup = some u ∧ u.session = sid ∧ u.stage.isRegistered = false

variable {s s' : Swarm k} {sid : Nat}

/-- A session with pipes is registered. -/
theorem Routed.not_unregistered (h : s.Routed) {p : PeerId} (hc : s.server.current p = some sid) :
    ¬s.Unregistered sid := by
  obtain ⟨x, hx, -, -, hs⟩ := (current_eq_some_iff h.sound.1 h.piped).1 hc
  rintro (hlen | ⟨u, hu, hsid, hr⟩)
  · rw [List.getElem?_eq_none hlen] at hx
    cases hx
  · rw [hs u hu hsid] at hr
    cases hr

/-- No first events have been prepared by a step but a part of `setup_peer_state`. -/
theorem step_setup {e : Event k} (h : s.step e = some s') (he : e ≠ .proceed) :
    (∀ sid, s'.Unregistered sid ↔ s.Unregistered sid) ∧
      ∀ u firstEvents, s'.setup = some u → u.stage = .prepared firstEvents → s.setup = some u := by
  cases step_moves h with
  | same hsessions hsetup =>
    exact ⟨fun sid => by simp only [Unregistered, hsessions, hsetup], fun u _ hu _ => hsetup ▸ hu⟩
  | began hs hsessions hsetup =>
    constructor
    · intro sid
      simp only [Unregistered, hsessions, hsetup, hs, List.length_append, List.length_singleton]
      constructor
      · rintro (hlen | ⟨u, hu, hsid, -⟩)
        · exact .inl (by omega)
        · cases hu
          exact .inl hsid.le
      · rintro (hlen | ⟨u, hu, -⟩)
        · rcases hlen.lt_or_eq with hlt | rfl
          · exact .inl hlt
          · exact .inr ⟨_, rfl, rfl, rfl⟩
        · cases hu
    · intro u firstEvents hu hstage
      rw [hsetup] at hu
      cases hu
      cases hstage
  | proceeded hproceed => exact absurd hproceed he
  | set hx hsessions hsetup =>
    exact ⟨fun sid => by simp only [Unregistered, hsessions, hsetup, List.length_set], fun u _ hu _ => hsetup ▸ hu⟩

/-- The parts of `setup_peer_state` after the registration. -/
theorem proceed_registered {u : Setup} (hu : s.setup = some u) (hr : u.stage.isRegistered = true)
    (h : s.proceed u = some s') : (∀ sid, s'.Unregistered sid ↔ s.Unregistered sid) ∧
      ∀ u', s'.setup = some u' → u'.stage.isRegistered = true := by
  have hkeep : s'.sessions.length = s.sessions.length ∧ ∀ u', s'.setup = some u' → u'.stage.isRegistered = true := by
    cases proceeds_of_proceed h with
    | prepare hstage | register hstage | fail hstage =>
      rw [hstage] at hr
      cases hr
    | spawnIngress | spawnEgress | spawnPinger => exact ⟨List.length_set .., fun u' hu' => by cases hu'; rfl⟩
    | install => exact ⟨rfl, fun u' hu' => by cases hu'⟩
  refine ⟨fun sid => ?_, hkeep.2⟩
  simp only [Unregistered, hkeep.1]
  -- neither before nor after it is there a setup that is not registered
  refine or_congr_right (iff_of_false ?_ ?_)
  · rintro ⟨u', hu', -, hr'⟩
    rw [hkeep.2 u' hu'] at hr'
    cases hr'
  · rintro ⟨u', hu', -, hr'⟩
    rw [hu] at hu'
    cases hu'
    rw [hr] at hr'
    cases hr'

/-- A part of `setup_peer_state` starts the loop of an egress router that was not spawned. -/
theorem proceed_looping {u : Setup} (h : s.proceed u = some s') {x' : Session k} (hx' : s'.sessions[sid]? = some x')
    (hl : x'.egress.Looping) : ∃ x, s.sessions[sid]? = some x ∧ x.egress.Looping := by
  have hset : ∀ {x y : Session k}, s.sessions[u.session]? = some x → (y.egress.Looping → x.egress.Looping) →
      (s.sessions.set u.session y)[sid]? = some x' → ∃ x, s.sessions[sid]? = some x ∧ x.egress.Looping := by
    intro x y hx hy hx'
    rcases mem_set_cases hx' with ⟨hsid, rfl⟩ | hx'
    · exact ⟨x, hsid ▸ hx, hy hl⟩
    · exact ⟨x', hx', hl⟩
  cases proceeds_of_proceed h with
  | prepare | register | fail | install => exact ⟨x', hx', hl⟩
  | @spawnIngress x hu hx => exact hset (y := { x with ingress := .waiting }) hx id hx'
  | @spawnEgress x hu hx hegress => exact hset (y := { x with egress := .selecting }) hx (fun _ => .inl hegress) hx'
  | @spawnPinger x hu hx => exact hset (y := { x with pinger := .looping }) hx id hx'

/-- An egress router that is in its loop was there before, or its session is new. -/
theorem step_looping {e : Event k} (h : s.step e = some s') {x' : Session k} (hx' : s'.sessions[sid]? = some x')
    (hl : x'.egress.Looping) : s.sessions.length ≤ sid ∨ ∃ x, s.sessions[sid]? = some x ∧ x.egress.Looping := by
  cases step_moves h with
  | same hsessions => exact .inr ⟨x', hsessions ▸ hx', hl⟩
  | began hs hsessions =>
    rw [hsessions, List.getElem?_append] at hx'
    split at hx'
    · exact .inr ⟨x', hx', hl⟩
    · exact .inl (by omega)
  | proceeded he hu hproceed => exact .inr (proceed_looping hproceed hx' hl)
  | @set sid' x y hx hsessions hsetup hu hp hloop =>
    rw [hsessions] at hx'
    rcases mem_set_cases hx' with ⟨hsid, rfl⟩ | hx'
    · exact .inr ⟨x, hsid ▸ hx, hloop hl⟩
    · exact .inr ⟨x', hx', hl⟩

/-- An egress router gets an event of `next`, and leaves its loop for a disconnect. -/
theorem step_event {event : OutboundEvent} (h : s.step (.task sid (.select (.event event))) = some s') :
    ∃ x d, s.sessions[sid]? = some x ∧ x.egress = .selecting ∧ s' = s.setSession sid { x with egress := .flushing d } ∧
      (event.isDisconnect = true → d ≠ none) := by
  cases steps_of_step h with
  | @task _ x x' _ hx hx' =>
    have hselect : x.egress = .selecting ∧ x.select (.event event) = some x' := by
      cases hegress : x.egress <;> simp [Session.step, hegress] at hx'
      exact ⟨rfl, hx'⟩
    obtain ⟨hegress, hx'⟩ := hselect
    cases event with
    | message name message =>
      cases hx'
      exact ⟨x, none, hx, hegress, rfl, fun hd => by cases hd⟩
    | disconnect reason =>
      cases hx'
      exact ⟨x, _, hx, hegress, rfl, fun _ => by simp⟩

end Swarm

/-! ## What holds of every outbox -/

/-- The event is an `eth` message with the id of `Status`. -/
def OutboundEvent.IsStatus (e : OutboundEvent) : Prop :=
  ∃ data, e = .message capabilityName ⟨MessageId.status.toUsize, data⟩

/-- With a status, the first events are a `Status`. -/
theorem CapabilityServerImpl.firstEvents_isStatus {server : CapabilityServerImpl k}
    {caps : List (CapabilityName × Nat)} {firstEvents : List OutboundEvent}
    (h : server.firstEvents caps = some firstEvents) (hs : server.statusMessage.isSome = true) :
    ∃ e, firstEvents = [e] ∧ e.IsStatus := by
  obtain ⟨⟨data, filter⟩, hstatus⟩ := Option.isSome_iff_exists.1 hs
  simp only [CapabilityServerImpl.firstEvents, hstatus, Option.map_eq_some_iff] at h
  obtain ⟨version, -, rfl⟩ := h
  exact ⟨_, rfl, _, rfl⟩

/-- What was handed to the sink is what was taken from the line of the session, and a disconnect was the last of it. -/
structure Outbox.Sound (o : Outbox) (sid : Nat) : Prop where
  ordered : o.line.Ordered
  taken : o.line.taken = o.handed
  own : ∀ sid', o.next = .awaiting sid' → sid' = sid
  ongoing : o.next ≠ .completed → ∀ e ∈ o.handed, e.isDisconnect = false
  stops : ∀ e ∈ o.handed.dropLast, e.isDisconnect = false

/-- There is nothing in the outbox. -/
structure Outbox.Unused (o : Outbox) : Prop where
  line : o.line = .new []
  sends : o.sends = []
  next : o.next = .created
  handed : o.handed = []

/-- The line opens with some first events. -/
theorem Outbox.Unused.sound {o : Outbox} (h : o.Unused) (firstEvents : List OutboundEvent) (sid : Nat) :
    Outbox.Sound { o with line := .new firstEvents } sid where
  ordered := Line.new_ordered firstEvents
  taken := by rw [h.handed]; rfl
  own sid' hn := by rw [h.next] at hn; cases hn
  ongoing _ e he := by rw [h.handed] at he; cases he
  stops e he := by rw [h.handed] at he; cases he

namespace Outbound

/-- **The invariant of the outboxes.** -/
structure Sound (s : Outbound k) : Prop where
  routed : s.swarm.Routed
  outbox : ∀ sid, (s.outboxes sid).Sound sid
  unused : ∀ sid, s.swarm.Unregistered sid → (s.outboxes sid).Unused
  prepared : ∀ u firstEvents, s.swarm.setup = some u → u.stage = .prepared firstEvents →
    (s.outboxes u.session).hadStatus = true → ∃ e, firstEvents = [e] ∧ e.IsStatus
  status : ∀ sid, ¬s.swarm.Unregistered sid → (s.outboxes sid).hadStatus = true →
    ∃ e, (s.outboxes sid).line.first = [e] ∧ e.IsStatus
  completed : ∀ (sid : Nat) x, s.swarm.sessions[sid]? = some x → (s.outboxes sid).next = .completed → ¬x.egress.Looping

variable {s s' : Outbound k} {sid : Nat}

/-- A step of the swarm that leaves the outboxes as they are. -/
theorem Sound.swarm_step (h : s.Sound) {e : Event k} {t : Swarm k} (hstep : s.swarm.step e = some t)
    (he : e ≠ .proceed) : Sound { s with swarm := t } := by
  obtain ⟨hun, hsetup⟩ := Swarm.step_setup hstep he
  refine ⟨Swarm.step_routed _ _ _ h.routed hstep, h.outbox, fun sid hs => h.unused sid ((hun sid).1 hs), ?_, ?_, ?_⟩
  · exact fun u firstEvents hu hstage => h.prepared u firstEvents (hsetup u firstEvents hu hstage) hstage
  · exact fun sid hs => h.status sid (mt (hun sid).2 hs)
  · intro sid x' hx' hc hl
    rcases Swarm.step_looping hstep hx' hl with hlen | ⟨x, hx, hl⟩
    · have hnext := (h.unused sid (.inl hlen)).next
      rw [hc] at hnext
      cases hnext
    · exact h.completed sid x hx hc hl

/-- An outbox of a registered session changes. -/
theorem Sound.set (h : s.Sound) (hr : ¬s.swarm.Unregistered sid) {o : Outbox} (ho : o.Sound sid)
    (hs : o.hadStatus = (s.outboxes sid).hadStatus) (hf : o.line.first = (s.outboxes sid).line.first)
    (hc : o.next = .completed → ∀ x, s.swarm.sessions[sid]? = some x → ¬x.egress.Looping) : (s.set sid o).Sound := by
  have hget : ∀ sid', (s.set sid o).outboxes sid' = if sid' = sid then o else s.outboxes sid' := fun sid' =>
    Function.update_apply ..
  refine ⟨h.routed, fun sid' => ?_, fun sid' hs' => ?_, fun u firstEvents hu hstage => ?_, fun sid' hs' => ?_,
    fun sid' x hx => ?_⟩
  · rw [hget]
    split
    · subst sid'
      exact ho
    · exact h.outbox sid'
  · rw [hget, if_neg fun he : sid' = sid => hr (he ▸ hs')]
    exact h.unused sid' hs'
  · rw [hget, if_neg fun he : u.session = sid => hr (.inr ⟨u, hu, he, by rw [hstage]; rfl⟩)]
    exact h.prepared u firstEvents hu hstage
  · rw [hget]
    split
    · subst sid'
      rw [hs, hf]
      exact h.status sid hs'
    · exact h.status sid' hs'
  · rw [hget]
    split
    · subst sid'
      exact fun hcomp => hc hcomp x hx
    · exact h.completed sid' x hx

/-- A sender is looked up. -/
theorem Sound.lookup (h : s.Sound) (peer : PeerId) (event : OutboundEvent) : (s.lookup peer event).Sound := by
  unfold Outbound.lookup
  split
  · rename_i sid hc
    have ho := h.outbox sid
    exact h.set (h.routed.not_unregistered hc) ⟨ho.ordered, ho.taken, ho.own, ho.ongoing, ho.stops⟩ rfl rfl
      fun hcomp x hx => h.completed sid x hx hcomp
  · exact h

theorem lookup_swarm (s : Outbound k) (peer : PeerId) (event : OutboundEvent) :
    (s.lookup peer event).swarm = s.swarm := by
  unfold Outbound.lookup
  split <;> rfl

/-- A step of the swarm sends a reply at most, outside `setup_peer_state`. -/
theorem Sound.carry (h : s.Sound) {e : Event k} (he : e ≠ .proceed) :
    (s.carry e).Sound ∧ (s.carry e).swarm = s.swarm := by
  unfold Outbound.carry
  split
  · exact absurd rfl he
  · split
    · split
      · exact ⟨h.lookup _ _, lookup_swarm ..⟩
      · exact ⟨h, rfl⟩
    · exact ⟨h, rfl⟩
  · exact ⟨h, rfl⟩

/-- The session that is set up exists. -/
theorem Sound.setup_lt (h : s.Sound) {u : Setup} (hu : s.swarm.setup = some u) :
    u.session < s.swarm.sessions.length := by
  obtain ⟨-, l, hl, -⟩ := h.routed.sound.1.setup _ _ _ (Swarm.slots_setup.2 ⟨u, hu, rfl, rfl, rfl⟩)
  obtain ⟨x, hx, -⟩ := Option.map_eq_some_iff.1 hl
  exact (List.getElem?_eq_some_iff.1 hx).1

/-- `on_peer_connect` prepares the first events. -/
theorem Sound.prepare (h : s.Sound) {u : Setup} {caps : List (CapabilityName × Nat)} {firstEvents : List OutboundEvent}
    (hu : s.swarm.setup = some u) (hstage : u.stage = .called caps)
    (hfirst : s.swarm.server.firstEvents caps = some firstEvents)
    (hrouted : Swarm.Routed { s.swarm with setup := some { u with stage := .prepared firstEvents } }) :
    Sound { s.set u.session { s.outboxes u.session with hadStatus := s.swarm.server.statusMessage.isSome } with
      swarm := { s.swarm with setup := some { u with stage := .prepared firstEvents } } } := by
  have hunreg : ∀ sid, Swarm.Unregistered { s.swarm with setup := some { u with stage := .prepared firstEvents } } sid ↔
      s.swarm.Unregistered sid := by
    intro sid
    simp only [Swarm.Unregistered, hu, Option.some.injEq, exists_eq_left', hstage]
    rfl
  have ho := h.outbox u.session
  have hun := h.unused u.session (.inr ⟨u, hu, rfl, by rw [hstage]; rfl⟩)
  refine ⟨hrouted, fun sid => ?_, fun sid hs => ?_, fun u' fe hu' hstage' => ?_, fun sid hs => ?_, fun sid x hx => ?_⟩
  · simp only [Outbound.set, Function.update_apply]
    split
    · subst sid
      exact ⟨ho.ordered, ho.taken, ho.own, ho.ongoing, ho.stops⟩
    · exact h.outbox sid
  · simp only [Outbound.set, Function.update_apply]
    split
    · exact ⟨hun.line, hun.sends, hun.next, hun.handed⟩
    · exact h.unused sid ((hunreg sid).1 hs)
  · cases hu'
    cases hstage'
    simp only [Outbound.set, Function.update_self]
    exact fun hstatus => CapabilityServerImpl.firstEvents_isStatus hfirst hstatus
  · have hne : sid ≠ u.session := fun he => hs (.inr ⟨_, rfl, he.symm, rfl⟩)
    simp only [Outbound.set, Function.update_of_ne hne]
    exact h.status sid (mt (hunreg sid).2 hs)
  · simp only [Outbound.set, Function.update_apply]
    split
    · subst sid
      exact h.completed u.session x hx
    · exact h.completed sid x hx

/-- `setup_peer` opens the channel, and the stream over it begins with the first events. -/
theorem Sound.register (h : s.Sound) {u : Setup} {firstEvents : List OutboundEvent} {t : Swarm k}
    (hu : s.swarm.setup = some u) (hstage : u.stage = .prepared firstEvents) (hrouted : t.Routed)
    (hsessions : t.sessions = s.swarm.sessions) (hsetup : t.setup = some { u with stage := .registered }) :
    Sound { s.set u.session { s.outboxes u.session with line := .new firstEvents } with swarm := t } := by
  have hun := h.unused u.session (.inr ⟨u, hu, rfl, by rw [hstage]; rfl⟩)
  have hunreg : ∀ sid, t.Unregistered sid ↔ s.swarm.sessions.length ≤ sid := by
    intro sid
    simp only [Swarm.Unregistered, hsessions, hsetup, Option.some.injEq, exists_eq_left']
    exact or_iff_left fun hr => by cases hr.2
  refine ⟨hrouted, fun sid => ?_, fun sid hs => ?_, fun u' fe hu' hstage' => ?_, fun sid hs => ?_, fun sid x hx => ?_⟩
  · simp only [Outbound.set, Function.update_apply]
    split
    · exact hun.sound firstEvents sid
    · exact h.outbox sid
  · have hlen := (hunreg sid).1 hs
    have hne : sid ≠ u.session := fun he => absurd (h.setup_lt hu) (by omega)
    simp only [Outbound.set, Function.update_of_ne hne]
    exact h.unused sid (.inl hlen)
  · rw [hsetup] at hu'
    cases hu'
    cases hstage'
  · simp only [Outbound.set, Function.update_apply]
    split
    · exact h.prepared u firstEvents hu hstage
    · rename_i hne
      refine h.status sid fun hold => ?_
      rcases hold with hlen | ⟨u', hu', hsid, -⟩
      · exact hs ((hunreg sid).2 hlen)
      · rw [hu] at hu'
        cases hu'
        exact hne hsid.symm
  · rw [hsessions] at hx
    simp only [Outbound.set, Function.update_apply]
    split
    · subst sid
      exact h.completed u.session x hx
    · exact h.completed sid x hx

/-- A part of `setup_peer_state`. -/
theorem Sound.proceed (h : s.Sound) {t : Swarm k} (hstep : s.swarm.step .proceed = some t) :
    Sound { s.carry .proceed with swarm := t } := by
  have hrouted := Swarm.step_routed _ _ _ h.routed hstep
  obtain ⟨u, hu, hproceed⟩ := Option.bind_eq_some_iff.1 hstep
  by_cases hr : u.stage.isRegistered = true
  · have hcarry : s.carry .proceed = s := by
      obtain ⟨peer, sid, attempt, stage⟩ := u
      cases stage <;> simp_all [Outbound.carry, Stage.isRegistered]
    obtain ⟨hun, hsetup⟩ := Swarm.proceed_registered hu hr hproceed
    rw [hcarry]
    refine ⟨hrouted, h.outbox, fun sid hs => h.unused sid ((hun sid).1 hs), fun u' fe hu' hstage => ?_,
      fun sid hs => h.status sid (mt (hun sid).2 hs), fun sid x' hx' hc hl => ?_⟩
    · have := hsetup u' hu'
      rw [hstage] at this
      cases this
    · obtain ⟨x, hx, hl⟩ := Swarm.proceed_looping hproceed hx' hl
      exact h.completed sid x hx hc hl
  · obtain ⟨peer, sid, attempt, stage⟩ := u
    cases Swarm.proceeds_of_proceed hproceed with
    | prepare hstage hfirst =>
      cases hstage
      simp only [Outbound.carry, hu]
      exact h.prepare hu rfl hfirst hrouted
    | register hstage =>
      cases hstage
      simp only [Outbound.carry, hu]
      exact h.register hu rfl hrouted rfl rfl
    | fail =>
      -- the assertion of `setup_peer` does not fail
      exact absurd hrouted.sound.2 (by simp)
    | spawnIngress hstage | spawnEgress hstage | spawnPinger hstage | install hstage =>
      cases hstage
      exact absurd rfl hr

/-- A session with a send under way is registered. -/
theorem Sound.not_unregistered (h : s.Sound) {i : Nat} {event : OutboundEvent}
    (hi : (s.outboxes sid).sends[i]? = some event) : ¬s.swarm.Unregistered sid := by
  intro hun
  rw [(h.unused sid hun).sends] at hi
  cases hi

/-- The stream of a session in `select!` does not end: what it yields is the next item of its line. -/
theorem Sound.pollStream (h : s.Sound) {x : Session k} (hx : s.swarm.sessions[sid]? = some x)
    (he : x.egress = .selecting) {event : OutboundEvent} (hp : s.pollStream sid = some (event, s')) :
    ∃ line, (s.outboxes sid).line.take = some (event, line) ∧
      s' = s.set sid { s.outboxes sid with line := line } := by
  have hpipes : s.hasPipes sid = true := by simp [hasPipes, hx, h.routed.receiver hx he]
  unfold Outbound.pollStream at hp
  split at hp
  · rename_i event line htake
    cases hp
    exact ⟨line, htake, rfl⟩
  · simp [hpipes] at hp

/-- The egress router hands an event to the sink. -/
theorem Sound.hand (h : s.Sound) {event : OutboundEvent} {line : Line OutboundEvent} {t : Swarm k}
    (htake : (s.outboxes sid).line.take = some (event, line)) (hn : (s.outboxes sid).next ≠ .completed)
    (hstep : s.swarm.step (.task sid (.select (.event event))) = some t) :
    Sound { (s.set sid { s.outboxes sid with line := line }).hand sid event with swarm := t } := by
  obtain ⟨x, d, hx, he, rfl, hd⟩ := Swarm.step_event hstep
  have ho := h.outbox sid
  obtain ⟨hfirst, -, htaken, -⟩ := Line.take_eq_some htake
  have hreg := h.routed.not_unregistered (h.routed.receiver hx he)
  have hswarm := h.swarm_step hstep (by simp)
  have hset : (s.set sid { s.outboxes sid with line := line }).hand sid event = s.set sid { s.outboxes sid with
      line := line
      handed := (s.outboxes sid).handed ++ [event]
      next := if event.isDisconnect then .completed else .created } := by
    simp [Outbound.hand, Outbound.set]
  rw [hset]
  refine hswarm.set (mt ((Swarm.step_setup hstep (by simp)).1 sid).1 hreg) ?_ rfl hfirst ?_
  · refine ⟨ho.ordered.take htake, ?_, fun sid' hown => ?_, fun hgo e hmem => ?_, fun e hmem => ?_⟩
    · rw [htaken, ho.taken]
    · dsimp only at hown
      split at hown <;> cases hown
    · rcases List.mem_append.1 hmem with hmem | hmem
      · exact ho.ongoing hn e hmem
      · rw [List.mem_singleton.1 hmem]
        by_contra hd
        exact hgo (if_pos (by simpa using hd))
    · rw [List.dropLast_concat] at hmem
      exact ho.ongoing hn e hmem
  · intro hc y hy hl
    dsimp only at hc
    split at hc
    · rename_i hdisc
      simp only [Swarm.setSession] at hy
      rw [List.getElem?_set_self (List.getElem?_eq_some_iff.1 hx).1] at hy
      cases hy
      rcases hl with hl | hl | hl <;> cases hl
      exact hd hdisc rfl
    · cases hc

/-- **Every step keeps the outboxes sound.** -/
theorem step_sound (s : Outbound k) (e : Action k) (s' : Outbound k) (h : s.Sound) (hs : s.step e = some s') :
    s'.Sound := by
  cases e with
  | swarm e =>
    simp only [step] at hs
    split at hs
    · cases hs
    · obtain ⟨t, hstep, rfl⟩ := Option.map_eq_some_iff.1 hs
      by_cases hp : e = .proceed
      · subst hp
        exact h.proceed hstep
      · obtain ⟨hcarry, hswarm⟩ := h.carry hp
        exact hcarry.swarm_step (hswarm ▸ hstep) hp
  | send peer event =>
    cases hs
    exact h.lookup peer event
  | accept sid i =>
    obtain ⟨event, hi, hs⟩ := Option.bind_eq_some_iff.1 hs
    split at hs <;> cases hs
    have ho := h.outbox sid
    exact h.set (h.not_unregistered hi) ⟨ho.ordered.accept event, ho.taken, ho.own, ho.ongoing, ho.stops⟩ rfl rfl
      fun hc x hx => h.completed sid x hx hc
  | cancel sid i =>
    obtain ⟨event, hi, rfl⟩ := Option.map_eq_some_iff.1 hs
    have ho := h.outbox sid
    exact h.set (h.not_unregistered hi) ⟨ho.ordered, ho.taken, ho.own, ho.ongoing, ho.stops⟩ rfl rfl
      fun hc x hx => h.completed sid x hx hc
  | poll sid =>
    obtain ⟨x, hx, hs⟩ := Option.bind_eq_some_iff.1 hs
    split at hs
    · rename_i he
      obtain ⟨sid', hc, rfl⟩ := Option.map_eq_some_iff.1 hs
      have hown := h.routed.receiver hx he.1
      have ho := h.outbox sid
      refine h.set (h.routed.not_unregistered hown) ⟨ho.ordered, ho.taken, fun sid'' hn => ?_,
        fun _ => ho.ongoing (by simp [he.2]), ho.stops⟩ rfl rfl (fun hn => by cases hn)
      cases hn
      rw [hown] at hc
      exact (Option.some.inj hc).symm
    · cases hs
  | next sid =>
    simp only [step] at hs
    split at hs
    · rename_i sid' hn
      obtain rfl := (h.outbox sid).own sid' hn
      obtain ⟨⟨event, t⟩, hpoll, hs⟩ := Option.bind_eq_some_iff.1 hs
      obtain ⟨u, hstep, rfl⟩ := Option.map_eq_some_iff.1 hs
      obtain ⟨x, d, hx, he, -⟩ := Swarm.step_event hstep
      obtain ⟨line, htake, rfl⟩ := h.pollStream hx he hpoll
      exact h.hand htake (by simp [hn]) hstep
    · cases hs

theorem new_sound (k : ForkCrates) (maxPeers : Nat) : (new k maxPeers).Sound where
  routed := Swarm.new_routed k maxPeers
  outbox sid := Outbox.Unused.sound (o := .new) ⟨rfl, rfl, rfl, rfl⟩ [] sid
  unused sid _ := ⟨rfl, rfl, rfl, rfl⟩
  prepared u _ hu := by cases hu
  status sid hs := absurd (.inl (Nat.zero_le sid)) hs
  completed sid x hx := by cases hx

/-- `next` is not polled again after it has returned a disconnect. -/
theorem completed_not_selecting {maxPeers : Nat} {es : List (Action k)} (h : Runs.run step (new k maxPeers) es = some s)
    {x : Session k} (hx : s.swarm.sessions[sid]? = some x) (hc : (s.outboxes sid).next = .completed) :
    x.egress ≠ .selecting := fun he =>
  (Runs.invariant step_sound es (new_sound k maxPeers) h).completed sid x hx hc (.inr (.inl he))

/-- **Outbound order without loss**: in every run of a swarm and of its senders, what the egress router of a session has
got from `next` and has handed to the sink is a prefix of the first events and then the events accepted by the channel,
cut after the first disconnect; the events that it has not handed to the sink still wait behind them; and when a status
was available to `on_peer_connect`, the first event is a `Status`. -/
theorem outbound_in_order {maxPeers : Nat} {es : List (Action k)} (h : Runs.run step (new k maxPeers) es = some s)
    (sid : Nat) :
    let o := s.outboxes sid
    o.handed <+: cutAfter OutboundEvent.isDisconnect (o.line.first ++ o.line.accepted) ∧
      o.line.first ++ o.line.accepted = o.handed ++ (o.line.rest ++ o.line.queue) ∧
      (o.hadStatus = true → ∀ e, o.handed.head? = some e → e.IsStatus) := by
  have hs : s.Sound := Runs.invariant step_sound es (new_sound k maxPeers) h
  have ho := hs.outbox sid
  have hline : (s.outboxes sid).line.first ++ (s.outboxes sid).line.accepted =
      (s.outboxes sid).handed ++ ((s.outboxes sid).line.rest ++ (s.outboxes sid).line.queue) := ho.taken ▸ ho.ordered
  refine ⟨ho.taken ▸ ho.ordered.taken_prefix (ho.taken ▸ ho.stops), hline, fun hstatus e he => ?_⟩
  by_cases hun : s.swarm.Unregistered sid
  · rw [(hs.unused sid hun).handed] at he
    cases he
  · -- the first event that was handed on is the first one of the line
    obtain ⟨e', hfirst, he'⟩ := hs.status sid hun hstatus
    obtain ⟨handed, hhanded⟩ := List.head?_eq_some_iff.1 he
    rw [hfirst, hhanded] at hline
    obtain rfl : e' = e := by simpa using congrArg List.head? hline
    exact he'

/-- A peer connects, and is sent a message and then penalized. -/
def penalize : List (Action genesisForks) :=
  Swarm.connectIncoming.map .swarm ++ [.send Swarm.samplePeer (.message capabilityName ⟨2, [0xc0]⟩), .poll 0,
    .accept 0 0, .next 0, .swarm (.task 0 (.flush true)), .send Swarm.samplePeer (.disconnect .disconnectRequested),
    .poll 0, .next 0, .accept 0 0, .swarm (.task 0 (.flush true)), .poll 0, .next 0]

/-- The sink gets the `Status`, the message and the disconnect. -/
theorem penalize_in_order : ∃ s, Runs.run step (new genesisForks 10) penalize = some s ∧
    (s.outboxes 0).handed = [.message capabilityName ⟨0, genesisStatusBytes⟩, .message capabilityName ⟨2, [0xc0]⟩,
      .disconnect .disconnectRequested] ∧
    (s.outboxes 0).handed <+:
      cutAfter OutboundEvent.isDisconnect ((s.outboxes 0).line.first ++ (s.outboxes 0).line.accepted) := by
  have hrun : (Runs.run step (new genesisForks 10) penalize).map (fun s => (s.outboxes 0).handed) =
      some [.message capabilityName ⟨0, genesisStatusBytes⟩, .message capabilityName ⟨2, [0xc0]⟩,
        .disconnect .disconnectRequested] := by decide +kernel
  obtain ⟨s, hs, hhanded⟩ := Option.map_eq_some_iff.1 hrun
  exact ⟨s, hs, hhanded, (outbound_in_order hs 0).1⟩

end Outbound

end EthereumSentry
